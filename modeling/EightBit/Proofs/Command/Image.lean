/-
# EightBit.Proofs.Command.Image -- the image of a program runs as its text does

Compiling writes the bytes of a program text to a file whose extension is that of images.  The text
has another extension, so it is still there afterwards, and the two files hold one program
(`programIn`), one read as text and the other as bytes.  A run depends on the file only through its
program, and names the file in its first and its last status message.

`image_runs_alike` follows a text from the arguments that compile it to the arguments that run the
image.
-/
import EightBit.Proofs.Command.Answers
import EightBit.Proofs.Command.Arguments
import EightBit.Proofs.Files
import EightBit.Proofs.Source.Meaning
import Mathlib.Data.Option.Basic

namespace EightBit

set_option autoImplicit false

namespace Plan

variable {d d' : Directory} {path : String} {contents : ByteArray}

/-! ## What is in the two files -/

/-- A text is read back from its bytes. -/
theorem fromUTF8?_toUTF8 (text : String) : String.fromUTF8? text.toUTF8 = some text := by
  unfold String.fromUTF8?
  split
  · rfl
  · next invalid => exact absurd text.isValidUTF8 invalid

theorem textIn_of_read {text : String} (read : d.read path = .ok contents)
    (valid : String.fromUTF8? contents = some text) :
    textIn d path = ({ name := path, text } : Source).parse.mapError (.source path) := by
  rw [textIn, read]
  show programOfText path contents = _
  rw [programOfText, valid]

theorem imageIn_of_read {program : List UInt8} (read : d.read path = .ok ⟨program.toArray⟩) :
    imageIn d path = .ok program := by
  rw [imageIn, read]
  rfl

/-- The name of an image has the extension for images. -/
theorem extension?_of_imageName {destination : Option String} {image : String}
    (asked : ∀ path ∈ destination, Path.extension? path.toList = some "bin".toList)
    (named : imageName path destination = .ok image) :
    Path.extension? image.toList = some "bin".toList := by
  unfold imageName at named
  split at named
  · obtain rfl := Except.ok.inj named
    exact asked _ rfl
  · next name renamed =>
    obtain rfl := Except.ok.inj named
    rw [String.toList_ofList]
    exact Path.extension?_of_renamed? renamed (by decide) (by decide) (by decide)
  · cases named

/-- Writing the image of a program leaves its text as it is. -/
theorem read_text_of_write {image : String} {new : ByteArray}
    (text : Path.extension? path.toList = some "ls8".toList)
    (bytes : Path.extension? image.toList = some "bin".toList)
    (read : d.read path = .ok contents) (written : d.write image new = .ok d') :
    d'.read path = .ok contents := by
  refine Directory.read_of_write_of_ne read written ?_
  intro same
  have one_extension : Path.extension? path.toList = Path.extension? image.toList := by
    rw [Path.extension?, Path.extension?, same]
  rw [text, bytes] at one_extension
  revert one_extension
  decide

/-- Compiling leaves two files with one program, its image and its text. -/
theorem exists_image_of_compile {patience : Nat} {colour : Bool} {program : List UInt8}
    {destination : Option String} {a : Answer}
    (extension : Path.extension? path.toList = some "ls8".toList)
    (asked : ∀ path ∈ destination, Path.extension? path.toList = some "bin".toList)
    (read : d.read path = .ok contents) (found : textIn d path = .ok program)
    (compiled : (ofCompile colour path destination).perform patience d {} = some a)
    (ok : a.result = .ok ()) :
    ∃ image, imageName path destination = .ok image ∧
      Path.extension? image.toList = some "bin".toList ∧
      a.directory.read image = .ok ⟨program.toArray⟩ ∧ a.directory.read path = .ok contents ∧
      programIn a.directory image = .ok program ∧ programIn a.directory path = .ok program := by
  obtain ⟨program', image, found', named, written⟩ := exists_of_perform_ofCompile compiled ok
  obtain rfl : program = program' := Except.ok.inj (found.symm.trans found')
  have bytes := extension?_of_imageName asked named
  have image_read := Directory.read_of_write written
  have text_read := read_text_of_write extension bytes read written
  refine ⟨image, named, bytes, image_read, text_read, ?_, ?_⟩
  · rw [programIn_image bytes, imageIn_of_read image_read]
  · rw [programIn_text extension, textIn, text_read, ← read]
    exact found

/-! ## Runs of one program -/

/-- Two answers that agree but for the file that the first and the last status message name. -/
structure Answer.Alike (display : Display) (path path' : String) (a b : Answer) : Prop where
  result : a.result = b.result
  directory : a.directory = b.directory
  stderr : a.shown.stderr = b.shown.stderr
  minimal : display.minimal = true → a.shown = b.shown
  status : ∃ (between : Console) (c : Colour) (word : String),
    a.shown = target display .green "Loading" path ++ between ++ target display c word path ∧
    b.shown = target display .green "Loading" path' ++ between ++ target display c word path'

/-- What stands between the file names decides the rest. -/
theorem Answer.Alike.of_status {display : Display} {path path' : String} {a b : Answer}
    (result : a.result = b.result) (directory : a.directory = b.directory) (between : Console)
    (c : Colour) (word : String)
    (first : a.shown =
      target display .green "Loading" path ++ between ++ target display c word path)
    (second : b.shown =
      target display .green "Loading" path' ++ between ++ target display c word path') :
    Alike display path path' a b where
  result := result
  directory := directory
  stderr := by
    rw [first, second]
    simp only [target, Console.stderr_append, stderr_message]
  minimal minimal := by
    rw [first, second]
    simp only [target, message_minimal minimal]
  status := ⟨between, c, word, first, second⟩

theorem alike_ofVerdict (display : Display) (path path' : String) (d : Directory)
    (program : List UInt8) (r : Run) (verdict : Verdict) :
    Answer.Alike display path path' (ofVerdict display path d program r verdict)
      (ofVerdict display path' d program r verdict) := by
  cases verdict with
  | error e =>
    refine .of_status rfl rfl
      (byteCount display "Running" program ++ { stdout := r.sink.text } ++ r.shown) .red "Failed"
      ?_ ?_ <;> simp only [ofVerdict, ending, Console.append_assoc]
  | ok =>
    refine .of_status rfl rfl
      (byteCount display "Running" program ++ { stdout := r.sink.text } ++ r.shown
        ++ display.message .status .cyan "Halted" "") .green "Completed"
      ?_ ?_ <;> simp only [ofVerdict, ending, Console.append_assoc]

/-- Two files that run alike with the options: the arguments are accepted for both, and both runs go
on for as long as patience lasts or have answers that agree. -/
structure RunAlike (e : Environment) (d : Directory) (path path' : String) (o : RunOptions) :
    Prop where
  first_accepted : (ofArguments? e (Request.runArguments o path)).isSome
  second_accepted : (ofArguments? e (Request.runArguments o path')).isSome
  alike : ∀ patience, Option.Rel (Answer.Alike (o.display e.colour) path path')
    (answer? e patience d (Request.runArguments o path))
    (answer? e patience d (Request.runArguments o path'))

theorem ofArguments?_runArguments (e : Environment) {o : RunOptions} (named : path ≠ "")
    (count : ∀ n ∈ o.maxSteps, n < UInt64.size) :
    ofArguments? e (Request.runArguments o path) =
      some (ofRun e.colour path { o with trace := o.trace || e.trace }) := by
  rw [ofArguments?, Request.ofArguments_runArguments e named count]
  rfl

/-- Two files with one program run alike. -/
theorem runAlike_of_machineIn {path' : String} {program : List UInt8} {m : Machine}
    (first : machineIn d path = .ok (program, m)) (second : machineIn d path' = .ok (program, m))
    (named : path ≠ "") (named' : path' ≠ "") (e : Environment) {o : RunOptions}
    (count : ∀ n ∈ o.maxSteps, n < UInt64.size) : RunAlike e d path path' o where
  first_accepted := by
    rw [ofArguments?_runArguments e named count]
    rfl
  second_accepted := by
    rw [ofArguments?_runArguments e named' count]
    rfl
  alike patience := by
    simp only [answer?, ofArguments?_runArguments e named count,
      ofArguments?_runArguments e named' count, Option.bind_some, perform_ofRun, first, second]
    generalize Session.run _ patience ⟨m, ({} : Sink), {}⟩ = ran
    rcases ran with ⟨r, _ | verdict⟩
    · exact .none
    · exact .some (alike_ofVerdict ..)

/-! ## From the text to the image -/

/-- A program text gives no more bytes than memory has cells. -/
theorem length_le_of_parse {s : Source} {program : List UInt8} (h : s.parse = .ok program) :
    program.length ≤ Memory.size := by
  obtain ⟨few, values⟩ := Source.parse_eq_ok_iff.1 h
  rw [← values.length_eq]
  exact few

theorem exists_machine_of_parse {s : Source} {program : List UInt8} (h : s.parse = .ok program) :
    ∃ m, Machine.ofProgram program = .ok m := by
  obtain ⟨m, loaded, -⟩ := Machine.ofProgram_of_le (length_le_of_parse h)
  exact ⟨m, loaded⟩

theorem ne_empty_of_extension? {extension : List Char}
    (h : Path.extension? path.toList = some extension) : path ≠ "" := by
  rintro rfl
  have none_left : Path.extension? "".toList = none := by decide
  rw [none_left] at h
  cases h

/-- **The image of a program runs as its text does.**  Take a text file and compile it, to a file
with the extension for images or to none, under any name that can be written.  If the text is a
program, compiling succeeds; what it has written are the bytes of the program; and with any options
the text and the image are accepted and run with one result, one standard error and one standard
output but for the file named in the status messages.  If the text is no program, compiling and
running both fail with the report of its first error. -/
theorem image_runs_alike (e : Environment) {d : Directory} {name text : String}
    {contents : ByteArray} (extension : Path.extension? name.toList = some "ls8".toList)
    (read : d.read name = .ok contents) (valid : String.fromUTF8? contents = some text)
    {destination : Option String}
    (asked : ∀ path ∈ destination, Path.extension? path.toList = some "bin".toList)
    (patience : Nat) :
    (∀ program, ({ name, text } : Source).parse = .ok program →
      (∀ image d', imageName name destination = .ok image →
        d.write image ⟨program.toArray⟩ = .ok d' →
        ∃ shown, answer? e patience d (Request.compileArguments name destination) =
          some ⟨.ok (), d', shown⟩) ∧
      ∀ a, answer? e patience d (Request.compileArguments name destination) = some a →
        a.result = .ok () →
        ∃ image, imageName name destination = .ok image ∧
          a.directory.read image = .ok ⟨program.toArray⟩ ∧
          a.directory.read name = .ok contents ∧
          ∀ o : RunOptions, (∀ n ∈ o.maxSteps, n < UInt64.size) →
            RunAlike e a.directory name image o) ∧
    ∀ cause, ({ name, text } : Source).parse = .error cause →
      (∃ shown, answer? e patience d (Request.compileArguments name destination) =
        some ⟨.error (.source name cause), d, shown⟩) ∧
      ∀ o : RunOptions, (∀ n ∈ o.maxSteps, n < UInt64.size) →
        ∃ shown, answer? e patience d (Request.runArguments o name) =
          some ⟨.error (.source name cause), d, shown⟩ := by
  have named := ne_empty_of_extension? extension
  have other : destination ≠ some "" := by
    rintro rfl
    exact ne_empty_of_extension? (asked "" rfl) rfl
  have compiled : answer? e patience d (Request.compileArguments name destination) =
      (ofCompile e.colour name destination).perform patience d {} :=
    answer?_of_ofArguments (Request.ofArguments_compileArguments e named other)
  have found := textIn_of_read read valid
  rw [compiled]
  constructor
  · intro program parsed
    replace found : textIn d name = .ok program := by
      rw [found, parsed]
      rfl
    obtain ⟨m, loaded⟩ := exists_machine_of_parse parsed
    constructor
    · intro image d' image_named written
      simp only [perform_ofCompile, found, image_named, written]
      exact ⟨_, rfl⟩
    · intro a answered ok
      obtain ⟨image, image_named, bytes, image_read, text_read, from_image, from_text⟩ :=
        exists_image_of_compile extension asked read found answered ok
      refine ⟨image, image_named, image_read, text_read, ?_⟩
      intro o count
      exact runAlike_of_machineIn (machineIn_of_programIn from_text loaded)
        (machineIn_of_programIn from_image loaded) named (ne_empty_of_extension? bytes) e count
  · intro cause refused
    rw [refused] at found
    refine ⟨?_, ?_⟩
    · rw [perform_ofCompile, found]
      exact ⟨_, rfl⟩
    · intro o count
      rw [answer?, ofArguments?_runArguments e named count, Option.bind_some, perform_ofRun,
        machineIn, programIn_text extension, found]
      exact ⟨_, rfl⟩

/-- A text whose only line halts is compiled to one byte, and that byte runs as the text does. -/
theorem halt_image_runs_alike :
    let d : Directory := ⟨[({ names := ["halt.ls8".toList] }, "1\n".toUTF8)]⟩
    ∃ a, answer? {} 0 d (Request.compileArguments "halt.ls8" none) = some a ∧ a.result = .ok () ∧
      a.directory.read "halt.bin" = .ok ⟨#[1]⟩ ∧
      RunAlike {} a.directory "halt.ls8" "halt.bin"
        { minimal := true, trace := true, maxSteps := some 5 } := by
  intro d
  have extension : Path.extension? "halt.ls8".toList = some "ls8".toList := by decide
  have read : d.read "halt.ls8" = .ok "1\n".toUTF8 := rfl
  have asked : ∀ path ∈ (none : Option String),
      Path.extension? path.toList = some "bin".toList := nofun
  have parsed : (Source.mk "halt.ls8" "1\n").parse = .ok [1] := by decide
  have compiled := (image_runs_alike {} extension read (fromUTF8?_toUTF8 _) asked 0).1 [1] parsed
  obtain ⟨shown, answered⟩ := compiled.1 "halt.bin" _ rfl rfl
  obtain ⟨image, named, bytes, -, alike⟩ := compiled.2 _ answered rfl
  obtain rfl : "halt.bin" = image := Except.ok.inj named
  exact ⟨_, answered, rfl, bytes, alike _ (by decide)⟩

end Plan

end EightBit
