/-
# EightBit.Proofs.Command.Answers -- what the commands answer

A command looks at the directory once, where it reads its program.  `textIn` and `programIn` are what
it finds there: the program, or the failure the command ends with.

`perform_ofRun`, `perform_ofCheck` and `perform_ofCompile` are the whole answers of the commands:
with no program they show what they were about to load and fail; with one, running ends as the
session does and leaves the directory alone, checking ends well, and compiling ends as the write
does.
-/
import EightBit.Command.Plan

namespace EightBit

set_option autoImplicit false

/-- How a command shows a run with these options. -/
def RunOptions.display (o : RunOptions) (colour : Bool) : Display :=
  { minimal := o.minimal, colour }

/-- The session of a run with these options. -/
def RunOptions.session (o : RunOptions) (colour : Bool) : Session :=
  { trace := o.trace, maxSteps := o.maxSteps, display := o.display colour }

@[simp] theorem exitStatus_ok : exitStatus (.ok ()) = 0 := rfl

@[simp] theorem exitStatus_error (failure : Failure) : exitStatus (.error failure) = 1 := rfl

namespace Plan

variable {patience : Nat} {d : Directory} {shown : Console}

/-! ## Reading a program -/

/-- The program in a text file. -/
def textIn (d : Directory) (path : String) : Except Failure (List UInt8) :=
  ((d.read path).mapError .file).bind (programOfText path)

/-- The program in the bytes of a file. -/
def imageIn (d : Directory) (path : String) : Except Failure (List UInt8) :=
  ((d.read path).mapError .file).map (·.data.toList)

/-- The program in a file, which is text or an image as its extension says. -/
def programIn (d : Directory) (path : String) : Except Failure (List UInt8) :=
  match (Path.extension? path.toList).map String.ofList with
  | some "ls8" => textIn d path
  | some "bin" => imageIn d path
  | some _ => .error .unknownExtension
  | none => .error .noExtension

/-- The program in a file, and a fresh machine that it is loaded into. -/
def machineIn (d : Directory) (path : String) : Except Failure (List UInt8 × Machine) :=
  (programIn d path).bind fun program =>
  ((Machine.ofProgram program).mapError .program).map fun machine => (program, machine)

theorem perform_orFail {α : Type} (next : α → Plan) (value : Except Failure α) :
    (orFail next value).perform patience d shown =
      match value with
      | .ok value => (next value).perform patience d shown
      | .error failure => some ⟨.error failure, d, shown⟩ := by
  cases value <;> rfl

theorem perform_readText (path : String) (next : List UInt8 → Plan) :
    (readText path next).perform patience d shown =
      (orFail next (textIn d path)).perform patience d shown := rfl

theorem perform_readProgram (path : String) (next : List UInt8 → Plan) :
    (readProgram path next).perform patience d shown =
      (orFail next (programIn d path)).perform patience d shown := by
  unfold readProgram programIn
  rcases (Path.extension? path.toList).map String.ofList with _ | extension
  · rfl
  · by_cases text : extension = "ls8"
    · subst text
      rfl
    · by_cases image : extension = "bin"
      · subst image
        rfl
      · simp only
        rfl

theorem programIn_text {path : String} (h : Path.extension? path.toList = some "ls8".toList) :
    programIn d path = textIn d path := by
  rw [programIn, h]
  rfl

theorem programIn_image {path : String} (h : Path.extension? path.toList = some "bin".toList) :
    programIn d path = imageIn d path := by
  rw [programIn, h]
  rfl

theorem machineIn_of_programIn {path : String} {program : List UInt8} {m : Machine}
    (found : programIn d path = .ok program) (loaded : Machine.ofProgram program = .ok m) :
    machineIn d path = .ok (program, m) := by
  rw [machineIn, found]
  show ((Machine.ofProgram program).mapError Failure.program).map _ = _
  rw [loaded]
  rfl

/-! ## Status messages -/

theorem stderr_message (display : Display) (c : Colour) (word rest : String) :
    (display.message .status c word rest).stderr = "" := by
  obtain ⟨minimal, colour⟩ := display
  cases minimal <;> rfl

theorem message_minimal {display : Display} (minimal : display.minimal = true) (c : Colour)
    (word rest : String) : display.message .status c word rest = {} := by
  simp only [Display.message, Display.printLine, Display.print, minimal]

/-! ## Running -/

/-- The status messages at the end of a run. -/
def ending (display : Display) (path : String) : Verdict → Console
  | .error _ => target display .red "Failed" path
  | .ok () => display.message .status .cyan "Halted" "" ++ target display .green "Completed" path

/-- The answer of a command that has run a program. -/
def ofVerdict (display : Display) (path : String) (d : Directory) (program : List UInt8)
    (r : Run) (verdict : Verdict) : Answer where
  result := verdict.mapError .run
  directory := d
  shown := target display .green "Loading" path ++ byteCount display "Running" program
    ++ { stdout := r.sink.text } ++ r.shown ++ ending display path verdict

theorem perform_run (session : Session) (machine : Machine) (next : Verdict → Plan) :
    (run session machine next).perform patience d shown =
      let ran := session.run patience ⟨machine, ({} : Sink), {}⟩
      ran.2.bind fun verdict =>
        (next verdict).perform patience d
          (shown ++ { stdout := ran.1.sink.text } ++ ran.1.shown) := by
  rw [perform]
  rcases session.run patience ⟨machine, ({} : Sink), {}⟩ with ⟨r, _ | verdict⟩ <;> rfl

theorem perform_ofRun (colour : Bool) (path : String) (o : RunOptions) :
    (ofRun colour path o).perform patience d {} =
      match machineIn d path with
      | .error failure =>
        some ⟨.error failure, d, target (o.display colour) .green "Loading" path⟩
      | .ok (program, machine) =>
        let ran := (o.session colour).run patience ⟨machine, ({} : Sink), {}⟩
        ran.2.map (ofVerdict (o.display colour) path d program ran.1) := by
  unfold ofRun machineIn
  simp only [perform.eq_2, perform_readProgram, perform_orFail, perform_run, Console.empty_append]
  cases programIn d path with
  | error failure => rfl
  | ok program =>
    cases loaded : (Machine.ofProgram program).mapError Failure.program with
    | error failure =>
      simp only [Except.bind, loaded, Except.map]
      rfl
    | ok machine =>
      simp only [Except.bind, loaded, Except.map]
      show Option.bind ((o.session colour).run patience ⟨machine, ({} : Sink), {}⟩).2 _ =
        Option.map _ _
      rcases ((o.session colour).run patience ⟨machine, ({} : Sink), {}⟩).2 with _ | error | _
      · rfl
      · rfl
      · simp only [Option.bind_some, perform, Option.map_some, ofVerdict, ending,
          Console.append_assoc]
        rfl

/-! ## Checking -/

theorem perform_ofCheck (colour : Bool) (path : String) :
    (ofCheck colour path).perform patience d {} =
      let checking := target { colour } .green "Checking" path
      match textIn d path with
      | .error failure => some ⟨.error failure, d, checking⟩
      | .ok _ => some ⟨.ok (), d,
          checking ++ ({ colour } : Display).message .status .green "Success" "no errors found!"⟩ := by
  unfold ofCheck
  simp only [perform, perform_readText, perform_orFail, Console.empty_append]
  cases textIn d path <;> rfl

/-! ## Compiling -/

theorem perform_ofCompile (colour : Bool) (path : String) (destination : Option String) :
    (ofCompile colour path destination).perform patience d {} =
      let loading := target { colour } .green "Loading" path
      match textIn d path, imageName path destination with
      | .error failure, _ => some ⟨.error failure, d, loading⟩
      | .ok _, .error failure => some ⟨.error failure, d, loading⟩
      | .ok program, .ok image =>
        match d.write image ⟨program.toArray⟩ with
        | .error cause => some ⟨.error (.file cause), d, loading⟩
        | .ok d' => some ⟨.ok (), d', loading ++ byteCount { colour } "Finished" program
            ++ target { colour } .green "Saved" image⟩ := by
  unfold ofCompile
  simp only [perform, perform_readText, perform_orFail, Console.empty_append]
  cases textIn d path with
  | error failure => rfl
  | ok program =>
    cases imageName path destination with
    | error failure => rfl
    | ok image =>
      cases written : d.write image ⟨program.toArray⟩ <;> simp only [written] <;> rfl

/-- Compiling ends well only if a program was found and its image could be written. -/
theorem exists_of_perform_ofCompile {colour : Bool} {path : String} {destination : Option String}
    {a : Answer} (h : (ofCompile colour path destination).perform patience d {} = some a)
    (ok : a.result = .ok ()) :
    ∃ program image, textIn d path = .ok program ∧ imageName path destination = .ok image ∧
      d.write image ⟨program.toArray⟩ = .ok a.directory := by
  rw [perform_ofCompile] at h
  dsimp only at h
  split at h
  · obtain rfl := Option.some.inj h
    cases ok
  · obtain rfl := Option.some.inj h
    cases ok
  · next program image found named =>
    split at h
    · obtain rfl := Option.some.inj h
      cases ok
    · next d' written =>
      obtain rfl := Option.some.inj h
      exact ⟨program, image, found, named, written⟩

/-! ## Commands -/

/-- The answer of a command on a directory.  There is none when the arguments are refused, or when a
program runs longer than the patience for it. -/
def answer? (e : Environment) (patience : Nat) (d : Directory) (args : List String) :
    Option Answer :=
  (ofArguments? e args).bind fun plan => plan.perform patience d {}

theorem answer?_of_ofArguments {e : Environment} {args : List String} {request : Request}
    (h : Request.ofArguments e args = .ok request) :
    answer? e patience d args = (ofRequest e request).perform patience d {} := by
  rw [answer?, ofArguments?, h]
  rfl

end Plan

end EightBit
