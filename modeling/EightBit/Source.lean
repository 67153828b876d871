/-
# EightBit.Source -- programs as text

A program text has one byte of the program on each significant line.  A `#` starts a comment that
runs to the end of the line; a line is significant when something other than white space stands
before its comment, and that something, trimmed, is its literal.

`Source.literals` finds the literals and their places, `Source.parse` reads them in order.  The
first literal that has no room in memory or has no value decides the error, and the error names that
literal, so its place is the span to report.
-/
import EightBit.Memory
import EightBit.Report
import EightBit.Source.Literal
import EightBit.Text.Blank

namespace EightBit

set_option autoImplicit false

/-! ## Finding literals -/

namespace Literal

/-- The part of a line before its comment. -/
def codeOf (line : List Char) : List Char :=
  line.takeWhile (· != '#')

/-- The literal of a line that starts at byte `start`, if the line is significant. -/
def ofLine? (start : Nat) (line : List Char) : Option Literal :=
  match Blank.trim (codeOf line) with
  | [] => none
  | c :: rest =>
    some {
      offset := start + Line.byteLength ((codeOf line).takeWhile Blank.isBlank)
      text := c :: rest }

/-- The literals of consecutive lines, the first of which starts at byte `start`. -/
def ofLines (start : Nat) : List (List Char) → List Literal
  | [] => []
  | line :: rest => (ofLine? start line).toList ++ ofLines (start + Line.byteLength line) rest

end Literal

/-- A program text and the name it is reported under. -/
structure Source where
  name : String
  text : String
  deriving DecidableEq, Repr

namespace Source

def literals (s : Source) : List Literal :=
  Literal.ofLines 0 (Line.lines s.text.toList)

/-! ## Reading literals -/

/-- What is wrong with a literal of a program. -/
inductive Problem where
  /-- Memory is full before it. -/
  | tooLong
  /-- It stands for no byte. -/
  | unreadable (cause : LiteralError)
  deriving DecidableEq, Repr

/-- Why a program text is no program: the first literal in the way and what is wrong with it. -/
structure Error where
  problem : Problem
  literal : Literal
  deriving DecidableEq, Repr

/-- The bytes of the literals, of which there may be at most `room`. -/
def assemble (room : Nat) : List Literal → Except Error (List UInt8)
  | [] => .ok []
  | l :: rest =>
    match room, l.value with
    | 0, _ => .error ⟨.tooLong, l⟩
    | _ + 1, .error cause => .error ⟨.unreadable cause, l⟩
    | room + 1, .ok byte => (assemble room rest).map (byte :: ·)

theorem assemble_nil (room : Nat) : assemble room [] = .ok [] := by
  simp [assemble]

theorem assemble_cons_of_error {l : Literal} {cause : LiteralError} (room : Nat)
    (value : l.value = .error cause) (rest : List Literal) :
    assemble (room + 1) (l :: rest) = .error ⟨.unreadable cause, l⟩ := by
  simp [assemble, value]

theorem assemble_cons_of_ok {l : Literal} {byte : UInt8} (room : Nat)
    (value : l.value = .ok byte) (rest : List Literal) :
    assemble (room + 1) (l :: rest) = (assemble room rest).map (byte :: ·) := by
  simp [assemble, value]

/-- The program a text stands for. -/
def parse (s : Source) : Except Error (List UInt8) :=
  assemble Memory.size s.literals

/-! ## Reporting -/

/-- The code an error is looked up by. -/
def Problem.code : Problem → String
  | tooLong => "load::too_long"
  | unreadable .tooLarge => "load::too_large"
  | unreadable _ => "load::bad_lit"

/-- What is said about a program with the problem. -/
def Problem.message : Problem → String
  | tooLong => "Program is too long to fit in memory"
  | unreadable .tooLarge => "Literal does not fit in a byte"
  | unreadable .empty =>
    "Encountered an invalid literal: cannot parse integer from empty string"
  | unreadable .invalidDigit => "Encountered an invalid literal: invalid digit found in string"

/-- What is said about the literal. -/
def Problem.label : Problem → String
  | tooLong => "first byte past the end of memory"
  | unreadable .tooLarge => "value exceeds 255"
  | unreadable _ => "not a binary literal"

/-- What to do about the problem. -/
def Problem.help : Problem → String
  | tooLong => "LS-8 memory holds " ++ Numeral.decimal Memory.size ++ " bytes, including the stack"
  | unreadable .tooLarge => "each line holds exactly one byte, at most 8 binary digits"
  | unreadable _ => "every instruction line must be a binary literal such as 10000010"

/-- The report of an error in the source called `name`. -/
def Error.report (e : Error) (name : String) : Report where
  message := e.problem.message
  code := some e.problem.code
  help := some e.problem.help
  severity := some .error
  labels := [⟨e.literal.offset, e.literal.length, e.problem.label⟩]
  file := some name

end Source

end EightBit
