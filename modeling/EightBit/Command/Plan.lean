/-
# EightBit.Command.Plan -- what a command does

A plan is what a command does in order: it puts texts on the streams, reads and writes files, and
runs a program, and it goes on according to how that went.  Plans can be carried out on any
surroundings; `Plan.perform` carries them out on a directory, where a program may print as much as
it likes.

`Plan.ofRequest` gives the plan of each command.  All commands read a program text in the same way
(`Plan.readText`).
-/
import EightBit.Command.Request
import EightBit.Files.Directory
import EightBit.Session
import EightBit.Source

namespace EightBit

set_option autoImplicit false

inductive Failure where
  | file (cause : FileError)
  | source (name : String) (cause : Source.Error)
  | program (cause : Fault)
  | run (cause : RunError)
  | unknownExtension
  | noExtension
  | noOutputName (path : String)
  deriving DecidableEq, Repr

def Failure.report : Failure → Report
  | file cause => { message := cause.message }
  | source name cause => cause.report name
  | program cause => { message := cause.message }
  | run cause => cause.report
  | unknownExtension => { message := "File has unknown extension. Exiting..." }
  | noExtension => { message := "File has no extension. Exiting..." }
  | noOutputName path => { message := "Cannot derive output name from " ++ path }

/-- What a command does in order. -/
inductive Plan where
  | done (result : Except Failure Unit)
  | print (shown : Console) (rest : Plan)
  | read (path : String) (next : Except FileError ByteArray → Plan)
  | write (path : String) (contents : ByteArray) (next : Except FileError Unit → Plan)
  /-- Run a program that prints to standard output. -/
  | run (session : Session) (machine : Machine) (next : Verdict → Plan)

namespace Plan

/-! ## Parts of plans -/

/-- Go on with a value, or fail. -/
def orFail {α : Type} (next : α → Plan) : Except Failure α → Plan
  | .ok value => next value
  | .error failure => done (.error failure)

/-- A status message about a file. -/
def target (d : Display) (c : Colour) (word path : String) : Console :=
  d.message .status c word ("target " ++ path)

/-- A status message about a number of bytes. -/
def byteCount (d : Display) (word : String) (program : List UInt8) : Console :=
  d.message .status .green word (Numeral.decimal program.length ++ " bytes")

/-- The program in the contents of a text file. -/
def programOfText (path : String) (contents : ByteArray) : Except Failure (List UInt8) :=
  match String.fromUTF8? contents with
  | none => .error (.file .invalidText)
  | some text => ({ name := path, text } : Source).parse.mapError (.source path)

/-- Read a program as text. -/
def readText (path : String) (next : List UInt8 → Plan) : Plan :=
  read path fun contents =>
    orFail next ((contents.mapError .file).bind (programOfText path))

/-- Read a program as the bytes of its file. -/
def readImage (path : String) (next : List UInt8 → Plan) : Plan :=
  read path fun contents =>
    orFail next ((contents.mapError .file).map (·.data.toList))

/-- Read a program as its extension says. -/
def readProgram (path : String) (next : List UInt8 → Plan) : Plan :=
  match (Path.extension? path.toList).map String.ofList with
  | some "ls8" => readText path next
  | some "bin" => readImage path next
  | some _ => done (.error .unknownExtension)
  | none => done (.error .noExtension)

/-! ## Commands -/

def ofRun (colour : Bool) (path : String) (o : RunOptions) : Plan :=
  let display : Display := { minimal := o.minimal, colour }
  let session : Session := { trace := o.trace, maxSteps := o.maxSteps, display }
  print (target display .green "Loading" path) <|
  readProgram path fun program =>
  (Machine.ofProgram program).mapError .program |> orFail fun machine =>
  print (byteCount display "Running" program) <|
  run session machine fun
    | .error e => print (target display .red "Failed" path) (done (.error (.run e)))
    | .ok () =>
      print (display.message .status .cyan "Halted" "") <|
      print (target display .green "Completed" path) (done (.ok ()))

/-- Read a program text and say whether it is one. -/
def ofCheck (colour : Bool) (path : String) : Plan :=
  let display : Display := { colour }
  print (target display .green "Checking" path) <|
  readText path fun _ =>
  print (display.message .status .green "Success" "no errors found!") (done (.ok ()))

/-- The file to write the image of a program to: the destination asked for, or the name of the
program text with the extension for images, in the working directory. -/
def imageName (path : String) (destination : Option String) : Except Failure String :=
  match destination, Path.renamed? path.toList ("bin".toList) with
  | some destination, _ => .ok destination
  | none, some name => .ok (String.ofList name)
  | none, none => .error (.noOutputName path)

/-- Read a program text and write its bytes to a file. -/
def ofCompile (colour : Bool) (path : String) (destination : Option String) : Plan :=
  let display : Display := { colour }
  print (target display .green "Loading" path) <|
  readText path fun program =>
  imageName path destination |> orFail fun image =>
  write image ⟨program.toArray⟩ fun written =>
  written.mapError .file |> orFail fun () =>
  print (byteCount display "Finished" program) <|
  print (target display .green "Saved" image) (done (.ok ()))

/-! ## Plans without files -/

def version : String := "0.1.0"

/-- The name of the program in large letters. -/
def logo : String :=
  "\n _      ____        ___" ++
  "\n| |    / ___|      ( _ )" ++
  "\n| |    \\___ \\ _____/ _ \\" ++
  "\n| |___  ___) |_____| (_) |" ++
  "\n|_____||____/      \\___/"

/-- What the program is, in a few words. -/
def introduction : String :=
  "\nWelcome to ls8, an interpreter for the LS-8 8-bit computer." ++
  "\nPrograms are text files with one binary byte per line, e.g. `10000010 # LDI`." ++
  "\nPlease use `-h` or `--help` to access the usage instructions and documentation.\n"

/-- The commands and their arguments. -/
def usage : String :=
  "Usage: ls8 [PATH]" ++
  "\n       ls8 run <NAME> [-m|--minimal] [-t|--trace] [--max-steps <N>]" ++
  "\n       ls8 compile <NAME> [DEST]" ++
  "\n       ls8 check <NAME>" ++
  "\n\nOptions:" ++
  "\n  -h, --help     Print help" ++
  "\n  -V, --version  Print version\n"

/-- The logo, in bold light blue where there is colour. -/
def paintedLogo (e : Environment) : String :=
  if e.colour then
    Escape.paint (if e.trueColour then "1;38;2;120;200;255" else "1;94") logo
  else logo

/-- The text shown to someone who asks for nothing. -/
def welcomeText (e : Environment) : String :=
  "\n~ ls8 v" ++ version ++ " ~\n" ++ paintedLogo e ++ "\n" ++ introduction ++ "\n"

def say (text : String) : Plan :=
  print { stdout := text } (done (.ok ()))

def ofRequest (e : Environment) : Request → Plan
  | .welcome => say (welcomeText e)
  | .run path options => ofRun e.colour path options
  | .check path => ofCheck e.colour path
  | .compile path destination => ofCompile e.colour path destination

/-- The plan of arguments; refused arguments have none. -/
def ofArguments? (e : Environment) (args : List String) : Option Plan :=
  match Request.ofArguments e args with
  | .ok request => some (ofRequest e request)
  | .error .version => some (say ("ls8 " ++ version ++ "\n"))
  | .error .help => some (say usage)
  | .error .refused => none

/-! ## Carrying out plans -/

/-- What a plan leaves: its result, the directory and the streams. -/
structure Answer where
  result : Except Failure Unit
  directory : Directory
  shown : Console

/-- Carry out a plan on a directory after what has been shown.  There is no answer when a program
runs longer than the patience for it. -/
def perform (patience : Nat) (d : Directory) (shown : Console) : Plan → Option Answer
  | done result => some ⟨result, d, shown⟩
  | print more rest => rest.perform patience d (shown ++ more)
  | read path next => (next (d.read path)).perform patience d shown
  | write path contents next =>
    match d.write path contents with
    | .ok d => (next (.ok ())).perform patience d shown
    | .error e => (next (.error e)).perform patience d shown
  | run session machine next =>
    match session.run patience { machine, sink := ({} : Sink) } with
    | (r, some verdict) =>
      (next verdict).perform patience d (shown ++ { stdout := r.sink.text } ++ r.shown)
    | (_, none) => none

end Plan

def exitStatus : Except Failure Unit → UInt32
  | .ok () => 0
  | .error _ => 1

def refusedStatus : UInt32 := 2

end EightBit
