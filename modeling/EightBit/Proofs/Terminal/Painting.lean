/-
# EightBit.Proofs.Terminal.Painting -- stripping undoes painting

Painting puts instructions into a text: one in front, one behind, and one behind every reset in it.
None of them changes what stripping leaves.  A reset ends with an `m`, so whatever instruction was
open before it, the inserted one is read from outside; and the reset behind the text closes what the
text itself has left open.  So a painted text never touches what is printed after it
(`strip_paint_append`).

`stderr_minimal` says what this comes to: on a minimal display diagnostics are what stripping leaves
of them on a full display in colour.
-/
import EightBit.Proofs.Terminal.Instructions
import EightBit.Terminal.Display

namespace EightBit

set_option autoImplicit false

namespace Escape

variable {code : String}

/-! ## Painted texts -/

/-- The instruction of a code is removed from inside another as from outside. -/
theorem stripFrom_start_append (plain : 'm' ∉ code.toList) (inside : Bool) (rest : List Char) :
    stripFrom inside (start code ++ rest) = stripFrom false rest := by
  have first : 'm' ∉ '[' :: code.toList := by simp [plain]
  have spelled : start code ++ rest = esc :: ('[' :: code.toList ++ 'm' :: rest) := by
    simp [start]
  rw [spelled, stripFrom_instruction inside first]

theorem stripFrom_reset_append (inside : Bool) (rest : List Char) :
    stripFrom inside (reset ++ rest) = stripFrom false rest :=
  stripFrom_start_append (by decide) inside rest

/-- What is inserted behind resets is removed again, and the reset at the end closes the text. -/
theorem stripFrom_afterResets_append (plain : 'm' ∉ code.toList) (inside : Bool)
    (text rest : List Char) :
    stripFrom inside (afterResets (start code) text ++ (reset ++ rest)) =
      stripFrom inside text ++ stripFrom false rest := by
  fun_induction afterResets (start code) text generalizing inside with
  | case1 text ih =>
    rw [List.append_assoc, List.append_assoc, stripFrom_reset_append, stripFrom_start_append plain,
      ih]
    exact congrArg (· ++ _) (stripFrom_reset_append inside text).symm
  | case2 c text _ ih =>
    cases inside with
    | true => exact ih _
    | false =>
      by_cases starts : c = esc
      · simpa [stripFrom, starts] using ih true
      · simpa [stripFrom, starts] using ih false
  | case3 =>
    rw [List.nil_append, stripFrom_reset_append]
    cases inside <;> rfl

/-- A painted text is stripped to what the text is stripped to, whatever stands behind it. -/
theorem strip_paint_append (plain : 'm' ∉ code.toList) (text rest : String) :
    strip (paint code text ++ rest) = strip text ++ strip rest := by
  rw [strip, paint, String.toList_append, String.toList_ofList, List.append_assoc,
    List.append_assoc, stripFrom_start_append plain, stripFrom_afterResets_append plain,
    String.ofList_append]
  rfl

theorem strip_paint (plain : 'm' ∉ code.toList) (text : String) :
    strip (paint code text) = strip text := by
  have := strip_paint_append plain text ""
  rwa [String.append_empty, show strip "" = "" by decide, String.append_empty] at this

end Escape

namespace Display

open Escape

/-! ## Diagnostics -/

theorem plain_code (c : Colour) : 'm' ∉ c.code.toList := by
  cases c <;> decide

/-- Diagnostics on a full display in colour are stripped one by one. -/
theorem strip_stderr_printAll {d : Display} (full : d.minimal = false) (colour : d.colour = true)
    (wanted : Wanted) (texts : List String) :
    strip (d.printAll (.diagnostic wanted) texts).stderr = String.join (texts.map strip) := by
  induction texts with
  | nil => rfl
  | cons text rest ih =>
    rw [printAll_cons, print_full full, Console.stderr_append, Display.paint, if_pos colour,
      strip_paint_append (plain_code .blue), ih, List.map_cons, String.join_cons]

theorem stderr_printAll_minimal {d : Display} (minimal : d.minimal = true) (texts : List String) :
    (d.printAll (.diagnostic .always) texts).stderr = String.join (texts.map strip) := by
  induction texts with
  | nil => rfl
  | cons text rest ih =>
    rw [printAll_cons, print_minimal_always minimal, Console.stderr_append, ih, List.map_cons,
      String.join_cons]

/-- **Minimal diagnostics are full ones without their colour.**  A text painted with any code is
stripped to what the text itself is stripped to.  So whatever texts are printed as diagnostics that
are always wanted, a minimal display puts on standard error what stripping leaves of all that a full
display in colour puts there. -/
theorem stderr_minimal {code : String} (plain : 'm' ∉ code.toList) (text : String)
    (texts : List String) {d d' : Display} (minimal : d.minimal = true)
    (full : d'.minimal = false) (colour : d'.colour = true) :
    strip (Escape.paint code text) = strip text ∧
      (d.printAll (.diagnostic .always) texts).stderr =
        strip (d'.printAll (.diagnostic .always) texts).stderr := by
  constructor
  · exact strip_paint plain text
  · rw [stderr_printAll_minimal minimal, strip_stderr_printAll full colour]

/-- A reset in the text closes an instruction in it, and the text ends inside another. -/
theorem stderr_minimal_unclosed :
    let text := "a\x1b[4\x1b[0mb\x1b[3"
    let d : Display := { minimal := true }
    let d' : Display := { colour := true }
    Escape.paint "34" text = "\x1b[34ma\x1b[4\x1b[0m\x1b[34mb\x1b[3\x1b[0m" ∧
      strip (Escape.paint "34" text) = "ab" ∧
      (d.printAll (.diagnostic .always) [text, "c"]).stderr = "abc" ∧
      strip (d'.printAll (.diagnostic .always) [text, "c"]).stderr = "abc" := by
  intro text d d'
  have plain : 'm' ∉ "34".toList := by decide
  have minimal : d.minimal = true := rfl
  have full : d'.minimal = false := rfl
  have spelled : Escape.paint "34" text = "\x1b[34ma\x1b[4\x1b[0m\x1b[34mb\x1b[3\x1b[0m" := by decide
  have plainly : strip text = "ab" := by decide
  have seen : (d.printAll (.diagnostic .always) [text, "c"]).stderr = "abc" := by decide
  obtain ⟨painted, shown⟩ := stderr_minimal plain text [text, "c"] minimal full rfl
  exact ⟨spelled, painted.trans plainly, seen, shown.symm.trans seen⟩

end Display

end EightBit
