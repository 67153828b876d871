/-
# EightBit.Proofs.Command.Loading -- the commands agree on what loads

Checking, compiling and running a program text read it in one way (`textIn`).  A text that is a
program fits into memory, so a run that has read one always comes to the program itself; a run that
has not ends as the other commands do, with the same failure.

* `ReadOnly` plans write no file, whatever they find and however their programs end.  Checking and
  running are such plans (`readOnly_ofCheck`, `readOnly_ofRun`), so this holds of runs that never end
  as well.
* `upToRun` carries out a plan as far as the first program it runs; `perform_upToRun` says that
  carrying out the rest gives the answer of the whole.
* `Compiled` is what compiling leaves when it ends well.

`commands_load_alike` puts them together.
-/
import EightBit.Proofs.Command.Image
import EightBit.Proofs.Command.Outcome

namespace EightBit

set_option autoImplicit false

/-! ## Writable paths -/

/-- A path leads to an entry that can be written: there is no directory there. -/
def Directory.Writable (d : Directory) (path : String) : Prop :=
  ∃ place, d.resolve true path = .ok (.entry place) ∧ d.holdsDirectory place = false

theorem Directory.Writable.exists_write {d : Directory} {path : String} (h : d.Writable path)
    (contents : ByteArray) : ∃ d', d.write path contents = .ok d' := by
  obtain ⟨place, leads, free⟩ := h
  refine ⟨d.put place contents, ?_⟩
  simp [write, leads, free]

namespace Plan

variable {patience : Nat} {d : Directory} {shown : Console} {path : String} {program : List UInt8}

/-! ## Plans that write no file -/

/-- A plan that writes no file, whatever it finds in files and however its programs end. -/
def ReadOnly : Plan → Prop
  | done _ => True
  | print _ rest => rest.ReadOnly
  | read _ next => ∀ contents, (next contents).ReadOnly
  | write _ _ _ => False
  | run _ _ next => ∀ verdict, (next verdict).ReadOnly

theorem ReadOnly.directory_eq {plan : Plan} (readOnly : plan.ReadOnly) {a : Answer}
    (answered : plan.perform patience d shown = some a) : a.directory = d := by
  induction plan generalizing shown with
  | done result =>
    obtain rfl := Option.some.inj answered
    rfl
  | print more rest ih => exact ih readOnly answered
  | read path next ih => exact ih _ (readOnly _) answered
  | write path contents next => exact readOnly.elim
  | run session machine next ih =>
    rw [perform_run] at answered
    obtain ⟨verdict, -, answered⟩ := Option.bind_eq_some_iff.1 answered
    exact ih verdict (readOnly verdict) answered

theorem readOnly_orFail {α : Type} {next : α → Plan} (h : ∀ value, (next value).ReadOnly)
    (found : Except Failure α) : (orFail next found).ReadOnly := by
  cases found with
  | error failure => trivial
  | ok value => exact h value

theorem readOnly_readProgram {next : List UInt8 → Plan} (h : ∀ program, (next program).ReadOnly)
    (path : String) : (readProgram path next).ReadOnly := by
  unfold readProgram
  split
  · exact fun contents => readOnly_orFail h _
  · exact fun contents => readOnly_orFail h _
  · trivial
  · trivial

theorem readOnly_ofCheck (colour : Bool) (path : String) : (ofCheck colour path).ReadOnly := by
  intro contents
  refine readOnly_orFail ?_ _
  intro program
  trivial

theorem readOnly_ofRun (colour : Bool) (path : String) (o : RunOptions) :
    (ofRun colour path o).ReadOnly := by
  refine readOnly_readProgram (fun program => readOnly_orFail ?_ _) path
  intro machine verdict
  cases verdict <;> trivial

/-! ## Up to the first program that is run -/

/-- How far a plan has been carried out: the directory and the streams it has left, and what is
still to be done. -/
structure Stage where
  directory : Directory
  shown : Console
  rest : Plan

/-- A plan carried out as far as the first program it runs, or to its end. -/
def upToRun (d : Directory) (shown : Console) : Plan → Stage
  | done result => ⟨d, shown, done result⟩
  | print more rest => rest.upToRun d (shown ++ more)
  | read path next => (next (d.read path)).upToRun d shown
  | write path contents next =>
    match d.write path contents with
    | .ok d => (next (.ok ())).upToRun d shown
    | .error e => (next (.error e)).upToRun d shown
  | run session machine next => ⟨d, shown, run session machine next⟩

/-- Carrying out what is left gives the answer of the whole plan. -/
theorem perform_upToRun (patience : Nat) (d : Directory) (shown : Console) (plan : Plan) :
    (plan.upToRun d shown).rest.perform patience (plan.upToRun d shown).directory
      (plan.upToRun d shown).shown = plan.perform patience d shown := by
  induction plan generalizing d shown with
  | done result => rfl
  | print more rest ih => exact ih d (shown ++ more)
  | read path next ih => exact ih (d.read path) d shown
  | write path contents next ih =>
    simp only [upToRun, perform]
    cases d.write path contents with
    | ok d' => exact ih _ d' shown
    | error e => exact ih _ d shown
  | run session machine next => rfl

/-- How far the command of some arguments comes without running a program. -/
def stage? (e : Environment) (d : Directory) (args : List String) : Option Stage :=
  (ofArguments? e args).map fun plan => plan.upToRun d {}

theorem stage?_of_ofArguments {e : Environment} {args : List String} {request : Request}
    (h : Request.ofArguments e args = .ok request) :
    stage? e d args = some ((ofRequest e request).upToRun d {}) := by
  rw [stage?, ofArguments?, h]
  rfl

theorem readProgram_text (extension : Path.extension? path.toList = some "ls8".toList)
    (next : List UInt8 → Plan) : readProgram path next = readText path next := by
  rw [readProgram, extension]
  rfl

/-- A run of a text that is no program ends where loading does. -/
theorem upToRun_ofRun_of_error {failure : Failure}
    (extension : Path.extension? path.toList = some "ls8".toList)
    (found : textIn d path = .error failure) (colour : Bool) (o : RunOptions) :
    (ofRun colour path o).upToRun d {} =
      ⟨d, target (o.display colour) .green "Loading" path, done (.error failure)⟩ := by
  rw [ofRun, readProgram_text extension, upToRun, Console.empty_append]
  show (orFail _ (textIn d path)).upToRun d _ = _
  rw [found]
  rfl

/-- A run of a text that is a program comes to the program. -/
theorem exists_upToRun_ofRun {m : Machine}
    (extension : Path.extension? path.toList = some "ls8".toList)
    (found : textIn d path = .ok program) (loaded : Machine.ofProgram program = .ok m)
    (colour : Bool) (o : RunOptions) :
    ∃ next, (ofRun colour path o).upToRun d {} =
      ⟨d, target (o.display colour) .green "Loading" path
        ++ byteCount (o.display colour) "Running" program, run (o.session colour) m next⟩ := by
  rw [ofRun, readProgram_text extension, upToRun, Console.empty_append]
  show ∃ next, (orFail _ (textIn d path)).upToRun d _ = _
  rw [found, orFail, loaded]
  exact ⟨_, rfl⟩

/-! ## A program in a text -/

/-- The program in a text file fits into memory. -/
theorem length_le_of_textIn (found : textIn d path = .ok program) :
    program.length ≤ Memory.size := by
  obtain ⟨contents, -, held⟩ := textIn_eq_ok_iff.1 found
  obtain ⟨text, -, parsed⟩ := programOfText_eq_ok_iff.1 held
  exact length_le_of_parse parsed

theorem exists_loads_of_textIn (extension : Path.extension? path.toList = some "ls8".toList)
    (found : textIn d path = .ok program) : ∃ m, Loads d path program m := by
  obtain ⟨m, loaded, -⟩ := Machine.ofProgram_of_le (length_le_of_textIn found)
  rw [← programIn_text extension] at found
  exact ⟨m, programIn_eq_ok_iff.1 found, loaded⟩

/-- A text can be loaded exactly when it is a program. -/
theorem loads_iff_textIn (extension : Path.extension? path.toList = some "ls8".toList) :
    (∃ program m, Loads d path program m) ↔ ∃ program, textIn d path = .ok program := by
  constructor
  · rintro ⟨program, m, loads⟩
    exact ⟨program, (programIn_text extension).symm.trans (programIn_eq_ok_iff.2 loads.holds)⟩
  · rintro ⟨program, found⟩
    exact ⟨program, exists_loads_of_textIn extension found⟩

/-! ## Compiling -/

/-- What compiling leaves when it ends well: the bytes of the program in the file the image is named
by, as many as the status message says and no more than memory has, and every other file as it
was. -/
structure Compiled (colour : Bool) (d : Directory) (path image : String) (contents : ByteArray)
    (a : Answer) : Prop where
  found : textIn d path = .ok contents.data.toList
  read : a.directory.read image = .ok contents
  others : ∃ place, d.resolve true image = .ok (.entry place) ∧
    a.directory.find? place = some contents ∧
    ∀ other ≠ place, a.directory.find? other = d.find? other
  size_le : contents.size ≤ 256
  stdout : a.shown.stdout =
    targetLine colour .green "Loading" path ++
      statusLine colour .green "Finished" (Numeral.decimal contents.size ++ " bytes") ++
      targetLine colour .green "Saved" image

theorem compiled_of_write {d' : Directory} {image : String}
    (found : textIn d path = .ok program) (written : d.write image ⟨program.toArray⟩ = .ok d')
    (colour : Bool) :
    Compiled colour d path image ⟨program.toArray⟩
      ⟨.ok (), d', target { colour } .green "Loading" path
        ++ byteCount { colour } "Finished" program ++ target { colour } .green "Saved" image⟩ where
  found := found
  read := Directory.read_of_write written
  others := by
    obtain ⟨place, leads, rfl⟩ := Directory.exists_of_write written
    exact ⟨place, leads, Directory.find?_put_self .., fun other ne =>
      Directory.find?_put_of_ne d ne _⟩
  size_le := length_le_of_textIn found
  stdout := by
    simp only [Console.stdout_append, target, byteCount, stdout_message]
    rfl

/-- Compiling writes one file if it ends well, and none if not. -/
structure WritesOne (colour : Bool) (d : Directory) (path : String) (destination : Option String)
    (a : Answer) : Prop where
  fails : exitStatus a.result ≠ 0 → a.directory = d
  succeeds : exitStatus a.result = 0 → ∃ image contents,
    imageName path destination = .ok image ∧ Compiled colour d path image contents a

theorem WritesOne.of_error {colour : Bool} {destination : Option String} (failure : Failure)
    (shown : Console) : WritesOne colour d path destination ⟨.error failure, d, shown⟩ where
  fails _ := rfl
  succeeds ok := by simp at ok

/-- Compiling runs no program, so it has one answer, whatever the patience. -/
theorem exists_perform_ofCompile (colour : Bool) (d : Directory) (path : String)
    (destination : Option String) :
    ∃ a, ∀ patience, (ofCompile colour path destination).perform patience d {} = some a := by
  simp only [perform_ofCompile]
  split
  · exact ⟨_, fun _ => rfl⟩
  · exact ⟨_, fun _ => rfl⟩
  · split
    · exact ⟨_, fun _ => rfl⟩
    · exact ⟨_, fun _ => rfl⟩

section

variable {colour : Bool} {destination : Option String} {a : Answer}

theorem writesOne_of_perform
    (answered : (ofCompile colour path destination).perform patience d {} = some a) :
    WritesOne colour d path destination a := by
  rw [perform_ofCompile] at answered
  dsimp only at answered
  split at answered
  · obtain rfl := Option.some.inj answered
    exact .of_error ..
  · obtain rfl := Option.some.inj answered
    exact .of_error ..
  · next program image found named =>
    split at answered
    · obtain rfl := Option.some.inj answered
      exact .of_error ..
    · next d' written =>
      obtain rfl := Option.some.inj answered
      have compiled := compiled_of_write found written colour
      exact ⟨fun fails => absurd rfl fails, fun _ => ⟨image, _, named, compiled⟩⟩

/-- Compiling a text that is no program fails as reading it does. -/
theorem result_of_error {failure : Failure} (found : textIn d path = .error failure)
    (answered : (ofCompile colour path destination).perform patience d {} = some a) :
    a.result = .error failure := by
  rw [perform_ofCompile, found] at answered
  obtain rfl := Option.some.inj answered
  rfl

/-- Compiling a program to a file that can be written ends well. -/
theorem result_of_writable {image : String} (found : textIn d path = .ok program)
    (named : imageName path destination = .ok image) (writable : d.Writable image)
    (answered : (ofCompile colour path destination).perform patience d {} = some a) :
    a.result = .ok () := by
  obtain ⟨d', written⟩ := writable.exists_write ⟨program.toArray⟩
  simp only [perform_ofCompile, found, named, written] at answered
  obtain rfl := Option.some.inj answered
  rfl

end

/-! ## The commands together -/

/-- A command that leaves the files alone: it plans to write none, and its answers have the
directory it was given. -/
structure LeavesFiles (e : Environment) (args : List String) : Prop where
  planned : ∀ plan, ofArguments? e args = some plan → plan.ReadOnly
  unchanged : ∀ patience d a, answer? e patience d args = some a → a.directory = d

theorem leavesFiles_of_readOnly {e : Environment} {args : List String} {request : Request}
    (h : Request.ofArguments e args = .ok request) (readOnly : (ofRequest e request).ReadOnly) :
    LeavesFiles e args where
  planned plan asked := by
    rw [ofArguments?, h] at asked
    obtain rfl := Option.some.inj asked
    exact readOnly
  unchanged patience d a answered := by
    rw [answer?_of_ofArguments h] at answered
    exact readOnly.directory_eq answered

/-- A run that has got past loading: the program in the file has been loaded and is next, and on a
full display the number of its bytes has been shown. -/
structure PastLoading (s : Session) (d : Directory) (path : String) (program : List UInt8)
    (stage : Stage) : Prop where
  directory : stage.directory = d
  next : ∃ m next, Loads d path program m ∧ stage.rest = run s m next
  stdout : stage.shown.stdout =
    if s.display.minimal then ""
    else targetLine s.display.colour .green "Loading" path ++
      statusLine s.display.colour .green "Running" (Numeral.decimal program.length ++ " bytes")

theorem pastLoading_of_loads {m : Machine} {next : Verdict → Plan}
    (loads : Loads d path program m) (colour : Bool) (o : RunOptions) :
    PastLoading (o.session colour) d path program
      ⟨d, target (o.display colour) .green "Loading" path
        ++ byteCount (o.display colour) "Running" program, run (o.session colour) m next⟩ where
  directory := rfl
  next := ⟨m, next, loads, rfl⟩
  stdout := by
    simp only [Console.stdout_append, target, byteCount, stdout_message]
    show (if o.minimal then _ else _) ++ (if o.minimal then _ else _) = if o.minimal then _ else _
    cases o.minimal <;> rfl

/-- What the commands have in common on a text file.  The answers of checking and compiling are
given; a run is followed up to the program that is run. -/
structure LoadAlike (e : Environment) (d : Directory) (path : String)
    (destination : Option String) (o : RunOptions) (running : List String) (check compile : Answer) :
    Prop where
  checks : exitStatus check.result = 0 ↔ ∃ program m, Loads d path program m
  compiles : ∀ image, imageName path destination = .ok image → d.Writable image →
    (exitStatus check.result = 0 ↔ exitStatus compile.result = 0)
  runs : exitStatus check.result = 0 ↔
    ∃ program stage, stage? e d running = some stage ∧
      PastLoading (o.session e.colour) d path program stage
  refused : exitStatus check.result ≠ 0 → ∃ failure run,
    (∀ patience, answer? e patience d running = some run) ∧
    run.shown.stdout = loadingOutput (o.display e.colour) path ∧
    ∀ a ∈ [check, compile, run],
      exitStatus a.result = 1 ∧ a.result = .error failure ∧ a.directory = d

section

variable {e : Environment} {o : RunOptions} {destination : Option String} {running : List String}
  {check compile : Answer}

theorem loadAlike_of_error {failure : Failure}
    (extension : Path.extension? path.toList = some "ls8".toList)
    (runs : Request.ofArguments e running = .ok (.run path o))
    (found : textIn d path = .error failure) (checked : check.result = .error failure)
    (unchanged : check.directory = d) (compiled : compile.result = .error failure)
    (untouched : compile.directory = d) :
    LoadAlike e d path destination o running check compile := by
  have unloaded : ¬ ∃ program m, Loads d path program m := by
    rw [loads_iff_textIn extension, found]
    rintro ⟨_, ⟨⟩⟩
  have status : exitStatus check.result ≠ 0 := by simp [checked]
  refine ⟨iff_of_false status unloaded, ?_, iff_of_false status ?_, fun _ => ?_⟩
  · intro image _ _
    rw [checked, compiled]
  · rintro ⟨program, stage, -, past⟩
    obtain ⟨m, -, loads, -⟩ := past.next
    exact unloaded ⟨program, m, loads⟩
  · -- up to here the run has only shown what it loads, and all that is left of it is the failure
    have ended (patience : Nat) : answer? e patience d running =
        some ⟨.error failure, d, target (o.display e.colour) .green "Loading" path⟩ := by
      rw [answer?_of_ofArguments runs, ofRequest, ← perform_upToRun,
        upToRun_ofRun_of_error extension found]
      rfl
    refine ⟨failure, _, ended, stdout_message .., ?_⟩
    simp [checked, compiled, unchanged, untouched]

theorem loadAlike_of_ok (extension : Path.extension? path.toList = some "ls8".toList)
    (runs : Request.ofArguments e running = .ok (.run path o))
    (found : textIn d path = .ok program) (checked : check.result = .ok ())
    (compiled : ∀ image, imageName path destination = .ok image → d.Writable image →
      compile.result = .ok ()) :
    LoadAlike e d path destination o running check compile := by
  obtain ⟨m, loads⟩ := exists_loads_of_textIn extension found
  have status : exitStatus check.result = 0 := by rw [checked, exitStatus_ok]
  refine ⟨iff_of_true status ⟨_, _, loads⟩, ?_, iff_of_true status ?_, fun h => absurd status h⟩
  · intro image named writable
    rw [checked, compiled image named writable]
  · obtain ⟨next, reached⟩ := exists_upToRun_ofRun extension found loads.loaded e.colour o
    refine ⟨program, _, stage?_of_ofArguments runs, ?_⟩
    rw [ofRequest, reached]
    exact pastLoading_of_loads loads e.colour o

end

/-- **The commands agree on what loads.**  Take arguments that ask for checking a file, for compiling
it and for running it.  Checking and compiling have one answer each.  If the extension is that of
texts, checking ends well exactly when the text can be loaded; compiling to a file that can be
written does so exactly when checking does; and exactly then a run gets past loading.  Otherwise all
three end with exit status one, the same failure and the files as they were.  Checking and running
leave the files alone in any case, and compiling does when it fails; when it ends well it has
written one file, which holds the bytes of the program, as many as it says and at most 256. -/
theorem commands_load_alike {e : Environment} {path : String} {destination : Option String}
    {o : RunOptions} {checking compiling running : List String}
    (checks : Request.ofArguments e checking = .ok (.check path))
    (compiles : Request.ofArguments e compiling = .ok (.compile path destination))
    (runs : Request.ofArguments e running = .ok (.run path o)) (d : Directory) :
    ∃ check compile, (∀ patience, answer? e patience d checking = some check) ∧
      (∀ patience, answer? e patience d compiling = some compile) ∧
      (Path.extension? path.toList = some "ls8".toList →
        LoadAlike e d path destination o running check compile) ∧
      LeavesFiles e checking ∧ LeavesFiles e running ∧
      WritesOne e.colour d path destination compile := by
  obtain ⟨compile, compiled⟩ := exists_perform_ofCompile e.colour d path destination
  have writes := writesOne_of_perform (compiled 0)
  have checkLeaves := leavesFiles_of_readOnly checks (readOnly_ofCheck e.colour path)
  have runLeaves := leavesFiles_of_readOnly runs (readOnly_ofRun e.colour path o)
  simp only [answer?_of_ofArguments checks, answer?_of_ofArguments compiles, ofRequest,
    perform_ofCheck]
  cases found : textIn d path with
  | error failure =>
    have failed := result_of_error found (compiled 0)
    have untouched : compile.directory = d := writes.fails (by simp [failed])
    refine ⟨_, compile, fun _ => rfl, compiled, fun extension => ?_, checkLeaves, runLeaves, writes⟩
    exact loadAlike_of_error extension runs found rfl rfl failed untouched
  | ok program =>
    refine ⟨_, compile, fun _ => rfl, compiled, fun extension => ?_, checkLeaves, runLeaves, writes⟩
    exact loadAlike_of_ok extension runs found rfl fun image named writable =>
      result_of_writable found named writable (compiled 0)

/-- A text whose only line halts is checked, compiled over another file and run. -/
theorem halt_loads_alike :
    let d : Directory := ⟨[({ names := ["halt.ls8".toList] }, "1\n".toUTF8),
      ({ names := ["old.bin".toList] }, ⟨#[7, 7]⟩)]⟩
    ∃ check compile, answer? {} 0 d ["check", "halt.ls8"] = some check ∧
      answer? {} 0 d ["compile", "halt.ls8", "old.bin"] = some compile ∧
      LoadAlike {} d "halt.ls8" (some "old.bin") {} ["run", "halt.ls8"] check compile ∧
      exitStatus check.result = 0 ∧ exitStatus compile.result = 0 ∧
      compile.directory.read "old.bin" = .ok ⟨#[1]⟩ := by
  intro d
  have extension : Path.extension? "halt.ls8".toList = some "ls8".toList := by decide
  have found : textIn d "halt.ls8" = .ok [1] :=
    textIn_eq_ok_iff.2 ⟨_, rfl, programOfText_eq_ok_iff.2 ⟨_, fromUTF8?_toUTF8 _, by decide⟩⟩
  have writable : d.Writable "old.bin" := ⟨{ names := ["old.bin".toList] }, rfl, by decide⟩
  have checks : Request.ofArguments {} ["check", "halt.ls8"] = .ok (.check "halt.ls8") := rfl
  have compiles : Request.ofArguments {} ["compile", "halt.ls8", "old.bin"] =
      .ok (.compile "halt.ls8" (some "old.bin")) := rfl
  have runs : Request.ofArguments {} ["run", "halt.ls8"] = .ok (.run "halt.ls8" {}) := rfl
  obtain ⟨check, compile, checked, compiled, alike, -, -, writes⟩ :=
    commands_load_alike checks compiles runs d
  have loadAlike := alike extension
  have checkEnds := loadAlike.checks.2 ((loads_iff_textIn extension).2 ⟨_, found⟩)
  have compileEnds := (loadAlike.compiles _ rfl writable).1 checkEnds
  obtain ⟨image, contents, named, left⟩ := writes.succeeds compileEnds
  obtain rfl : "old.bin" = image := Except.ok.inj named
  have same : [1] = contents.data.toList := Except.ok.inj (found.symm.trans left.found)
  refine ⟨check, compile, checked 0, compiled 0, loadAlike, checkEnds, compileEnds, ?_⟩
  rw [left.read]
  obtain ⟨⟨bytes⟩⟩ := contents
  rw [show bytes = [1] from same.symm]

end Plan

end EightBit
