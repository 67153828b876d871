/-
# EightBit.Report -- what is said when something goes wrong

A report has a message and may have a code to look it up by, a hint, and labelled places in a named
source text.  Places are counted in bytes of the source.
-/

namespace EightBit

set_option autoImplicit false

/-- A place in a source text and what is said about it. -/
structure Label where
  offset : Nat
  length : Nat
  text : String
  deriving DecidableEq, Repr

/-- How grave a report is. -/
inductive Severity where
  | error
  deriving DecidableEq, Repr

/-- Something that went wrong. -/
structure Report where
  message : String
  code : Option String := none
  help : Option String := none
  severity : Option Severity := none
  labels : List Label := []
  file : Option String := none
  deriving DecidableEq, Repr

/-- The lines of a source shown on each side of a labelled line. -/
def Report.contextLines : Nat := 4

end EightBit
