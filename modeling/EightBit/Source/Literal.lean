/-
# EightBit.Source.Literal -- binary literals

A literal is an optional mark `0b` followed by binary digits, with `_` anywhere between them.  One
plus sign may stand before the digits.  The value must fit in a byte.

Digits are read from the left.  A character that is no digit is refused when it is met, a digit that
takes the value past 255 likewise, so the leftmost of the two decides (`readBits`).
-/
import EightBit.Text.Line

namespace EightBit

set_option autoImplicit false

inductive LiteralError where
  /-- There is nothing left of it but its mark and separators. -/
  | empty
  /-- It has a character that is no binary digit. -/
  | invalidDigit
  /-- Its value is above 255. -/
  | tooLarge
  deriving DecidableEq, Repr

/-- A literal and the byte offset of its first character in the source. -/
structure Literal where
  offset : Nat
  text : List Char
  deriving DecidableEq, Repr

namespace Literal

/-- The literal's length in bytes. -/
def length (l : Literal) : Nat :=
  Line.byteLength l.text

/-- A text without the mark `0b` it may begin with. -/
def withoutMark : List Char → List Char
  | '0' :: 'b' :: rest => rest
  | text => text

/-- A text without the separators in it. -/
def withoutSeparators (text : List Char) : List Char :=
  text.filter (· != '_')

/-- A text without the plus sign it may begin with; a plus sign alone stays. -/
def withoutSign : List Char → List Char
  | '+' :: c :: rest => c :: rest
  | text => text

def bit? : Char → Option Nat
  | '0' => some 0
  | '1' => some 1
  | _ => none

/-- The byte that `value` and the digits behind it make up. -/
def readBits (value : Nat) : List Char → Except LiteralError UInt8
  | [] => .ok (UInt8.ofNat value)
  | c :: rest =>
    match bit? c with
    | none => .error .invalidDigit
    | some bit =>
      if 2 * value + bit ≤ 255 then readBits (2 * value + bit) rest else .error .tooLarge

def read (text : List Char) : Except LiteralError UInt8 :=
  match withoutSeparators (withoutMark text) with
  | [] => .error .empty
  | c :: rest => readBits 0 (withoutSign (c :: rest))

def value (l : Literal) : Except LiteralError UInt8 :=
  read l.text

end Literal

end EightBit
