/-
# EightBit.Command.Environment -- what the environment says

The environment decides whether tracing is on when the command line does not say, and whether output
is in colour.  `isOff` states which values of a switch mean off.
-/

namespace EightBit

set_option autoImplicit false

/-- The values of the variables a command is started with, and whether its standard output is a
terminal. -/
structure Environment where
  values : List (String × String) := []
  terminal : Bool := false
  deriving DecidableEq, Repr

namespace Environment

def get? (e : Environment) (name : String) : Option String :=
  e.values.lookup name

/-- The values of a switch that mean off, in lower case. -/
def offWords : List String := ["", "n", "no", "f", "false", "off", "0"]

/-- Whether the value of a switch means off. -/
def isOff (value : String) : Bool :=
  offWords.contains (value.map Char.toLower)

/-- Whether the environment asks for tracing. -/
def trace (e : Environment) : Bool :=
  (e.get? "LS8_TRACE").any fun value => !isOff value

/-- Whether a variable is set to something other than zero. -/
def isForced (e : Environment) (name : String) : Bool :=
  (e.get? name).any (· != "0")

/-- Whether output is in colour: when it is forced, or else on a terminal where nothing speaks
against it. -/
def colour (e : Environment) : Bool :=
  if e.isForced "CLICOLOR_FORCE" then true
  else if (e.get? "NO_COLOR").isSome then false
  else (e.get? "CLICOLOR").all (· != "0") && e.terminal

/-- Whether a terminal shows any colour, and not only those of its palette. -/
def trueColour (e : Environment) : Bool :=
  (e.get? "COLORTERM").any fun value => value == "truecolor" || value == "24bit"

end Environment

end EightBit
