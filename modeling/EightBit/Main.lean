/-
# EightBit.Main -- the command line

Carries out the plan of the arguments on the system: files, the two streams and the exit status.
Diagnostics and printed values are shown as the program runs.
-/
import EightBit.Command.Plan

namespace EightBit

set_option autoImplicit false

namespace Main

/-- The variables that matter. -/
def variableNames : List String :=
  ["LS8_TRACE", "CLICOLOR_FORCE", "NO_COLOR", "CLICOLOR", "COLORTERM"]

/-- The environment the command was started with. -/
def environment : IO Environment := do
  let values ← variableNames.filterMapM fun name => do
    return (← IO.getEnv name).map fun value => (name, value)
  return { values, terminal := ← (← IO.getStdout).isTty }

def emit (shown : Console) : IO Unit := do
  unless shown.stdout.isEmpty do
    IO.print shown.stdout
  unless shown.stderr.isEmpty do
    IO.eprint shown.stderr

/-- The number of a system error, which may be given with either sign. -/
def errorNumber (code : UInt32) : UInt32 :=
  min code (0 - code)

/-- What the system says about a file. -/
def fileError : IO.Error → FileError
  | .noFileOrDirectory .. => .notFound
  | .inappropriateType _ code text =>
    if errorNumber code = 20 then .notDirectory
    else if errorNumber code = 21 then .isDirectory
    else .other text
  | .invalidArgument _ code text =>
    if errorNumber code = 36 then .nameTooLong else .other text
  | e => .other (toString e)

/-- Do something with a file. -/
def onFile {α : Type} (act : IO α) : IO (Except FileError α) := do
  match ← act.toBaseIO with
  | .ok value => return .ok value
  | .error e => return .error (fileError e)

/-- Run a program, showing what each tick brings. -/
partial def follow (session : Session) (machine : Machine) : IO Verdict := do
  let (r, verdict?) := session.tick { machine, sink := ({} : Sink) }
  emit ({ stdout := r.sink.text } ++ r.shown)
  match verdict? with
  | some verdict => return verdict
  | none => follow session r.machine

def complain (r : Report) : IO Unit := do
  IO.eprintln ("Error: " ++ (r.code.map (· ++ ": ")).getD "" ++ r.message)
  for label in r.labels do
    IO.eprintln ("  " ++ r.file.getD "" ++ " at byte " ++ toString label.offset ++ ": "
      ++ label.text)
  if let some help := r.help then
    IO.eprintln ("  help: " ++ help)

def perform : Plan → IO UInt32
  | .done result => do
    if let .error failure := result then
      complain failure.report
    return exitStatus result
  | .print shown rest => do
    emit shown
    perform rest
  | .read path next => do
    let contents ← onFile (IO.FS.readBinFile path)
    perform (next contents)
  | .write path contents next => do
    let written ← onFile (IO.FS.writeBinFile path contents)
    perform (next written)
  | .run session machine next => do
    let verdict ← follow session machine
    perform (next verdict)

end Main

end EightBit

open EightBit in
def main (args : List String) : IO UInt32 := do
  let e ← Main.environment
  match Plan.ofArguments? e args with
  | some plan => Main.perform plan
  | none =>
    IO.eprint ("error: unexpected arguments\n\n" ++ Plan.usage)
    return refusedStatus
