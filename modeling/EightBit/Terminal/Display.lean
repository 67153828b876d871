/-
# EightBit.Terminal.Display -- what reaches the two output streams

Besides what a program prints there are status messages, which go to standard output, and
diagnostics (trace lines and register dumps), which go to standard error in blue.  A minimal display
drops status messages and those diagnostics that are not always wanted, and strips the others of
escape sequences.  Colour may be off, and painting then leaves a text as it is.

`print_minimal_always` and `print_full` state the two ways of a diagnostic.
-/
import EightBit.Terminal.Escape
import EightBit.Text.Numeral

namespace EightBit

set_option autoImplicit false

/-! ## The two streams -/

/-- What was put on standard output and on standard error. -/
structure Console where
  stdout : String := ""
  stderr : String := ""
  deriving DecidableEq, Repr

namespace Console

/-- What was put on each stream first and then. -/
def append (a b : Console) : Console :=
  ⟨a.stdout ++ b.stdout, a.stderr ++ b.stderr⟩

instance : Append Console := ⟨append⟩

@[simp] theorem stdout_append (a b : Console) : (a ++ b).stdout = a.stdout ++ b.stdout := rfl

@[simp] theorem stderr_append (a b : Console) : (a ++ b).stderr = a.stderr ++ b.stderr := rfl

@[ext] theorem ext {a b : Console} (hout : a.stdout = b.stdout) (herr : a.stderr = b.stderr) :
    a = b := by
  cases a
  cases b
  simp_all

theorem append_assoc (a b c : Console) : a ++ b ++ c = a ++ (b ++ c) :=
  ext (String.append_assoc ..) (String.append_assoc ..)

@[simp] theorem append_empty (a : Console) : a ++ ({} : Console) = a :=
  ext String.append_empty String.append_empty

@[simp] theorem empty_append (a : Console) : ({} : Console) ++ a = a :=
  ext String.empty_append String.empty_append

end Console

/-! ## Displays -/

inductive Colour where
  | red
  | green
  | blue
  | cyan
  deriving DecidableEq, Repr

def Colour.code : Colour → String
  | red => "31"
  | green => "32"
  | blue => "34"
  | cyan => "36"

/-- When a diagnostic is wanted. -/
inductive Wanted where
  /-- On every display. -/
  | always
  /-- On a full display only. -/
  | sometimes
  deriving DecidableEq, Repr

/-- What a text is printed as. -/
inductive Channel where
  | status
  | diagnostic (wanted : Wanted)
  deriving DecidableEq, Repr

/-- How texts are shown: whether only the necessary is, and whether in colour. -/
structure Display where
  minimal : Bool := false
  colour : Bool := false
  deriving DecidableEq, Repr

namespace Display

def paint (d : Display) (c : Colour) (text : String) : String :=
  if d.colour then Escape.paint c.code text else text

/-- A text in a colour at the right end of `width` columns. -/
def paintAligned (d : Display) (width : Nat) (c : Colour) (text : String) : String :=
  if d.colour then Escape.paintAligned width c.code text else Numeral.alignRight width text

/-- What printing a text puts on the streams. -/
def print (d : Display) (channel : Channel) (text : String) : Console :=
  match channel, d.minimal with
  | .status, false => { stdout := text }
  | .status, true => {}
  | .diagnostic _, false => { stderr := d.paint .blue text }
  | .diagnostic .always, true => { stderr := Escape.strip text }
  | .diagnostic .sometimes, true => {}

/-- What printing texts one after the other puts on the streams. -/
def printAll (d : Display) (channel : Channel) (texts : List String) : Console :=
  texts.foldl (fun shown text => shown ++ d.print channel text) {}

/-- What printing a text on a line of its own puts on the streams. -/
def printLine (d : Display) (channel : Channel) (text : String) : Console :=
  d.print channel (text ++ "\n")

/-- What a message puts on the streams: a coloured word in a column of twelve, then the rest. -/
def message (d : Display) (channel : Channel) (c : Colour) (word rest : String) : Console :=
  d.printLine channel (d.paintAligned 12 c word ++ " " ++ rest)

theorem print_minimal_always {d : Display} (h : d.minimal = true) (text : String) :
    d.print (.diagnostic .always) text = { stderr := Escape.strip text } := by
  simp [print, h]

theorem print_full {d : Display} (h : d.minimal = false) (wanted : Wanted) (text : String) :
    d.print (.diagnostic wanted) text = { stderr := d.paint .blue text } := by
  simp [print, h]

theorem foldl_print (d : Display) (channel : Channel) (texts : List String) (shown : Console) :
    texts.foldl (fun shown text => shown ++ d.print channel text) shown
      = shown ++ d.printAll channel texts := by
  induction texts generalizing shown with
  | nil => simp [printAll]
  | cons text rest ih =>
    simp only [printAll, List.foldl_cons, Console.empty_append]
    rw [ih, ih (d.print channel text), Console.append_assoc]

@[simp] theorem printAll_nil (d : Display) (channel : Channel) : d.printAll channel [] = {} := rfl

@[simp] theorem printAll_cons (d : Display) (channel : Channel) (text : String)
    (rest : List String) :
    d.printAll channel (text :: rest) = d.print channel text ++ d.printAll channel rest := by
  simp only [printAll, List.foldl_cons, Console.empty_append]
  exact d.foldl_print channel rest _

end Display

end EightBit
