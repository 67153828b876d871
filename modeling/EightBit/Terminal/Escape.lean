/-
# EightBit.Terminal.Escape -- escape sequences in a text

A terminal takes the characters from an ESC to the next `m` as an instruction and not as text.  To
paint a text is to put the instruction that sets a style in front of it and the one that resets all
styles behind it; every reset that the text holds already is followed by the style again, so the
style lasts to the end.  To strip a text is to remove all its instructions.

Stripping goes through the text once and remembers whether it is inside an instruction
(`stripFrom`); an instruction that is never closed reaches to the end.
`esc_not_mem_strip` says that no ESC is left, `strip_of_esc_not_mem` that a text without ESC is
kept.
-/

namespace EightBit

set_option autoImplicit false

namespace Escape

def esc : Char := '\x1b'

def start (code : String) : List Char :=
  esc :: '[' :: (code.toList ++ ['m'])

def reset : List Char := start "0"

/-! ## Painting -/

/-- A text with `mark` behind every reset in it. -/
def afterResets (mark : List Char) : List Char → List Char
  | '\x1b' :: '[' :: '0' :: 'm' :: rest => reset ++ mark ++ afterResets mark rest
  | c :: rest => c :: afterResets mark rest
  | [] => []

/-- A text in the style of a code. -/
def paint (code text : String) : String :=
  String.ofList (start code ++ afterResets (start code) text.toList ++ reset)

/-- A text in the style of a code, moved to the right end of `width` columns inside the style.  The
instructions in the text count as columns. -/
def paintAligned (width : Nat) (code text : String) : String :=
  String.ofList
    (start code ++ (afterResets (start code) text.toList).leftpad width ' ' ++ reset)

/-! ## Stripping -/

/-- The text without its instructions, from inside an instruction or from outside. -/
def stripFrom : Bool → List Char → List Char
  | _, [] => []
  | true, c :: rest => stripFrom (c != 'm') rest
  | false, c :: rest => if c = esc then stripFrom true rest else c :: stripFrom false rest

/-- The text without its instructions. -/
def strip (text : String) : String :=
  String.ofList (stripFrom false text.toList)

theorem esc_not_mem_stripFrom (inside : Bool) (text : List Char) :
    esc ∉ stripFrom inside text := by
  induction text generalizing inside with
  | nil => cases inside <;> simp [stripFrom]
  | cons c rest ih =>
    cases inside with
    | true => exact ih _
    | false =>
      by_cases h : c = esc
      · simpa [stripFrom, h] using ih true
      · simpa [stripFrom, h, Ne.symm h] using ih false

theorem esc_not_mem_strip (text : String) : esc ∉ (strip text).toList := by
  simpa [strip] using esc_not_mem_stripFrom false text.toList

theorem stripFrom_false_of_esc_not_mem {text : List Char} (h : esc ∉ text) :
    stripFrom false text = text := by
  induction text with
  | nil => rfl
  | cons c rest ih =>
    simp only [List.mem_cons, not_or] at h
    simp [stripFrom, Ne.symm h.1, ih h.2]

theorem strip_of_esc_not_mem {text : String} (h : esc ∉ text.toList) : strip text = text := by
  rw [strip, stripFrom_false_of_esc_not_mem h, String.ofList_toList]

end Escape

end EightBit
