/-
# EightBit.Command.Request -- what the arguments ask for

The arguments name a command with its own options, or a path to run, or nothing.  Options may stand
before and after names; one-letter options may be written together; `--` ends the options.  Options
are never abbreviated and never given twice.

Arguments are read from the left, and the first that is out of place decides (`Stop`): they are
refused, or they only ask for the version or for help.
-/
import EightBit.Command.Environment

namespace EightBit

set_option autoImplicit false

/-- How a program is to be run. -/
structure RunOptions where
  minimal : Bool := false
  trace : Bool := false
  maxSteps : Option Nat := none
  deriving DecidableEq, Repr

/-- What the arguments ask for. -/
inductive Request where
  | welcome
  | run (path : String) (options : RunOptions)
  | check (path : String)
  | compile (path : String) (destination : Option String)
  deriving DecidableEq, Repr

/-- Why the arguments make no request. -/
inductive Stop where
  | refused
  | version
  | help
  deriving DecidableEq, Repr

/-! ## The form of an argument -/

/-- An argument by its form. -/
inductive Argument where
  | name (text : String)
  | long (name : String) (value : Option String)
  | letters (letters : List Char)
  | endOfOptions
  deriving DecidableEq, Repr

/-- The form of an argument.  A hyphen alone is a name. -/
def Argument.ofString (text : String) : Argument :=
  match text.toList with
  | ['-', '-'] => endOfOptions
  | '-' :: '-' :: rest =>
    long (String.ofList (rest.takeWhile (· != '='))) <|
      match rest.dropWhile (· != '=') with
      | [] => none
      | _ :: value => some (String.ofList value)
  | '-' :: c :: rest => letters (c :: rest)
  | _ => name text

namespace Request

/-! ## Names and numbers -/

/-- Some names and one more, of which there may be `most`.  A name is never empty. -/
def addName (most : Nat) (names : List String) (name : String) : Except Stop (List String) :=
  if name = "" || most ≤ names.length then .error .refused else .ok (names ++ [name])

/-- The number a text stands for: decimal digits, behind a plus sign or not, that fit in 64 bits. -/
def readCount? (text : String) : Option Nat :=
  let ds := match text.toList with
    | '+' :: rest => rest
    | ds => ds
  let n := Nat.ofDigitChars 10 ds 0
  if ds ≠ [] && ds.all Char.isDigit && n < UInt64.size then some n else none

/-! ## The arguments of a command -/

/-- The names among arguments that have no options but the one for help. -/
def names (most : Nat) (found : List String) : List String → Except Stop (List String)
  | [] => .ok found
  | arg :: rest =>
    match Argument.ofString arg with
    | .name text => do names most (← addName most found text) rest
    | .endOfOptions => rest.foldlM (addName most) found
    | .letters ('h' :: _) | .long "help" none => .error .help
    | .letters _ | .long _ _ => .error .refused

structure RunArguments where
  names : List String := []
  options : RunOptions := {}
  deriving DecidableEq, Repr

namespace RunArguments

def addName (a : RunArguments) (text : String) : Except Stop RunArguments :=
  (Request.addName 1 a.names text).map fun names => { a with names }

def setMinimal (a : RunArguments) : Except Stop RunArguments :=
  if a.options.minimal then .error .refused
  else .ok { a with options := { a.options with minimal := true } }

def setTrace (a : RunArguments) : Except Stop RunArguments :=
  if a.options.trace then .error .refused
  else .ok { a with options := { a.options with trace := true } }

def setMaxSteps (a : RunArguments) (value : String) : Except Stop RunArguments :=
  match a.options.maxSteps, readCount? value with
  | none, some n => .ok { a with options := { a.options with maxSteps := some n } }
  | _, _ => .error .refused

def addLetter (a : RunArguments) : Char → Except Stop RunArguments
  | 'm' => a.setMinimal
  | 't' => a.setTrace
  | 'h' => .error .help
  | _ => .error .refused

/-- The arguments found so far and those behind them. -/
def scan (a : RunArguments) : List String → Except Stop RunArguments
  | [] => .ok a
  | arg :: rest =>
    match Argument.ofString arg, rest with
    | .name text, rest => do scan (← a.addName text) rest
    | .endOfOptions, rest => rest.foldlM addName a
    | .letters letters, rest => do scan (← letters.foldlM addLetter a) rest
    | .long "minimal" none, rest => do scan (← a.setMinimal) rest
    | .long "trace" none, rest => do scan (← a.setTrace) rest
    | .long "max-steps" (some value), rest => do scan (← a.setMaxSteps value) rest
    | .long "max-steps" none, value :: rest => do scan (← a.setMaxSteps value) rest
    | .long "help" none, _ => .error .help
    | .long _ _, _ => .error .refused

end RunArguments

/-! ## Commands -/

/-- The request of the command for running; the environment is asked about tracing only when the
arguments do not switch it on. -/
def ofRun (e : Environment) (args : List String) : Except Stop Request := do
  let found ← RunArguments.scan {} args
  match found.names with
  | [path] => return run path { found.options with trace := found.options.trace || e.trace }
  | _ => .error .refused

def ofCheck (args : List String) : Except Stop Request := do
  match ← names 1 [] args with
  | [path] => return check path
  | _ => .error .refused

def ofCompile (args : List String) : Except Stop Request := do
  match ← names 2 [] args with
  | [path] => return compile path none
  | [path, destination] => return compile path (some destination)
  | _ => .error .refused

def commandNames : List String := ["run", "compile", "check", "help"]

/-- The request of the command for help, which may be about one command. -/
def ofHelp : List String → Except Stop Request
  | [] => .error .help
  | [name] => .error (if commandNames.contains name then .help else .refused)
  | _ => .error .refused

/-- The request of a command with its arguments. -/
def ofCommand (e : Environment) : String → List String → Except Stop Request
  | "run", args => ofRun e args
  | "check", args => ofCheck args
  | "compile", args => ofCompile args
  | _, args => ofHelp args

/-- The request without a command: to run the path, if there is one. -/
def ofNames : List String → Request
  | path :: _ => run path {}
  | [] => welcome

/-- The request of the arguments behind the names found so far.  A command may follow a path, and
the path then does not matter. -/
def scan (e : Environment) (found : List String) : List String → Except Stop Request
  | [] => .ok (ofNames found)
  | arg :: rest =>
    if commandNames.contains arg then ofCommand e arg rest
    else
      match Argument.ofString arg with
      | .name text => do scan e (← addName 1 found text) rest
      | .endOfOptions => (rest.foldlM (addName 1) found).map ofNames
      | .letters ('V' :: _) | .long "version" none => .error .version
      | .letters ('h' :: _) | .long "help" none => .error .help
      | .letters _ | .long _ _ => .error .refused

/-- What the arguments ask for in an environment. -/
def ofArguments (e : Environment) (args : List String) : Except Stop Request :=
  scan e [] args

end Request

end EightBit
