/-
# EightBit.Proofs.Source.Lines -- significant lines and their literals

`Source.significant` lists the literals of a text the short way: cut the text at line feeds, take
the part of each line before its first `#`, trim it, and leave out what is empty.  The literals that
are read from a source are these, in this order (`Source.map_text_literals`), and each of them is
found at its place: `Source.exists_place` gives the line it stands on and the bytes before it.

Facts about a text are proved by cutting off its first line (`Line.text_induction`).
-/
import EightBit.Source
import Mathlib.Data.List.TakeWhile

namespace EightBit

set_option autoImplicit false

/-! ## Lines -/

namespace Line

/-- A text is a single line, or a line, a line feed and a text. -/
theorem text_induction {motive : List Char → Prop}
    (last : ∀ line, '\n' ∉ line → motive line)
    (more : ∀ line rest, '\n' ∉ line → motive rest → motive (line ++ '\n' :: rest))
    (text : List Char) : motive text := by
  by_cases feed : '\n' ∈ text
  · obtain ⟨line, rest, text_eq, whole⟩ := List.eq_append_cons_of_mem feed
    rw [text_eq]
    exact more line rest whole (text_induction last more rest)
  · exact last text feed
termination_by text.length
decreasing_by
  rw [text_eq, List.length_append, List.length_cons]
  omega

theorem lines_of_not_mem {line : List Char} (whole : '\n' ∉ line) :
    lines line = if line = [] then [] else [line] := by
  induction line with
  | nil => rfl
  | cons c rest ih =>
    simp only [List.mem_cons, not_or] at whole
    rw [lines, if_neg (Ne.symm whole.1), ih whole.2]
    split
    · next none_left => simp [consFirst, none_left]
    · simp [consFirst]

theorem lines_append {line : List Char} (whole : '\n' ∉ line) (rest : List Char) :
    lines (line ++ '\n' :: rest) = (line ++ ['\n']) :: lines rest := by
  induction line with
  | nil => simp [lines]
  | cons c line ih =>
    simp only [List.mem_cons, not_or] at whole
    rw [List.cons_append, lines, if_neg (Ne.symm whole.1), ih whole.2]
    rfl

/-- A line starts behind `before`. -/
def StartsBehind (before : List Char) : Prop :=
  before = [] ∨ ∃ front, before = front ++ ['\n']

/-- `line` is a whole line of a text, without the line feed that may end it. -/
structure IsLine (text before line after : List Char) : Prop where
  text_eq : text = before ++ line ++ after
  starts : StartsBehind before
  whole : '\n' ∉ line
  ends : after = [] ∨ ∃ back, after = '\n' :: back

theorem IsLine.after_line {rest before part after : List Char}
    (h : IsLine rest before part after) (line : List Char) :
    IsLine (line ++ '\n' :: rest) (line ++ '\n' :: before) part after where
  text_eq := by simp [h.text_eq]
  starts := by
    rcases h.starts with rfl | ⟨front, rfl⟩
    · exact .inr ⟨line, rfl⟩
    · exact .inr ⟨line ++ '\n' :: front, by simp⟩
  whole := h.whole
  ends := h.ends

end Line

/-! ## What stands on a line -/

namespace Blank

theorem trimStart_eq_trim_append (text : List Char) :
    ∃ back, (∀ c ∈ back, isBlank c = true) ∧ trimStart text = trim text ++ back := by
  refine ⟨((trimStart text).reverse.takeWhile isBlank).reverse, ?_, ?_⟩
  · intro c mem
    exact List.mem_takeWhile_imp (List.mem_reverse.1 mem)
  · rw [trim, trimEnd, ← List.reverse_append, List.takeWhile_append_dropWhile, List.reverse_reverse]

/-- A text is its trimmed form with white space on both sides. -/
theorem eq_trim_append (text : List Char) :
    ∃ back, (∀ c ∈ back, isBlank c = true) ∧
      text = text.takeWhile isBlank ++ trim text ++ back := by
  obtain ⟨back, blank, split⟩ := trimStart_eq_trim_append text
  refine ⟨back, blank, ?_⟩
  rw [List.append_assoc, ← split, trimStart, List.takeWhile_append_dropWhile]

theorem trim_eq_nil_of_blank {text : List Char} (h : ∀ c ∈ text, isBlank c = true) :
    trim text = [] := by
  have : trim (text ++ []) = trim [] := trim_blank_append h
  rwa [List.append_nil] at this

/-- Something that is no white space ends the white space a text begins with. -/
theorem takeWhile_append_of_trim_ne_nil {text : List Char} (something : trim text ≠ [])
    (back : List Char) : (text ++ back).takeWhile isBlank = text.takeWhile isBlank := by
  rw [List.takeWhile_append, if_neg]
  intro all_blank
  have blank : text.takeWhile isBlank = text :=
    (List.takeWhile_prefix isBlank).eq_of_length all_blank
  exact something (trim_eq_nil_of_blank (List.takeWhile_eq_self_iff.1 blank))

end Blank

namespace Literal

open Blank

theorem codeOf_append_of_mem {a : List Char} (comment : '#' ∈ a) (b : List Char) :
    codeOf (a ++ b) = codeOf a := by
  induction a with
  | nil => simp at comment
  | cons c a ih =>
    by_cases hash : c = '#'
    · simp [codeOf, hash]
    · have deeper : '#' ∈ a := by simpa [Ne.symm hash] using comment
      simpa [codeOf, hash] using ih deeper

theorem codeOf_append_of_not_mem {a : List Char} (code : '#' ∉ a) (b : List Char) :
    codeOf (a ++ b) = a ++ codeOf b := by
  induction a with
  | nil => rfl
  | cons c a ih =>
    simp only [List.mem_cons, not_or] at code
    have plain : c ≠ '#' := Ne.symm code.1
    simpa [codeOf, plain] using ih code.2

theorem codeOf_of_not_mem {line : List Char} (code : '#' ∉ line) : codeOf line = line := by
  simpa [codeOf] using codeOf_append_of_not_mem code []

/-- A line feed behind a line is not part of what counts on it. -/
theorem trim_codeOf_append_feed (line : List Char) :
    trim (codeOf (line ++ ['\n'])) = trim (codeOf line) := by
  by_cases comment : '#' ∈ line
  · rw [codeOf_append_of_mem comment]
  · rw [codeOf_append_of_not_mem comment, codeOf_of_not_mem comment]
    exact trim_append_blank (List.forall_mem_singleton.2 (by decide))

/-- The literal of a line, in the terms of what stands on it. -/
theorem ofLine?_eq (start : Nat) (line : List Char) :
    ofLine? start line =
      if trim (codeOf line) = [] then none
      else some
        ⟨start + Line.byteLength ((codeOf line).takeWhile isBlank), trim (codeOf line)⟩ := by
  unfold ofLine?
  split
  · next none_left => simp [none_left]
  · next c rest found => simp [found]

theorem eq_of_ofLine? {start : Nat} {line : List Char} {l : Literal}
    (found : ofLine? start line = some l) :
    trim (codeOf line) ≠ [] ∧
      l.offset = start + Line.byteLength ((codeOf line).takeWhile isBlank) ∧
      l.text = trim (codeOf line) := by
  rw [ofLine?_eq] at found
  split at found
  · cases found
  · next something =>
    obtain rfl := Option.some.inj found
    exact ⟨something, rfl, rfl⟩

/-- A line feed behind a line does not move its literal. -/
theorem ofLine?_append_feed (start : Nat) (line : List Char) :
    ofLine? start (line ++ ['\n']) = ofLine? start line := by
  rw [ofLine?_eq, ofLine?_eq, trim_codeOf_append_feed]
  by_cases empty : trim (codeOf line) = []
  · rw [if_pos empty, if_pos empty]
  · have indent : (codeOf (line ++ ['\n'])).takeWhile isBlank =
        (codeOf line).takeWhile isBlank := by
      by_cases comment : '#' ∈ line
      · rw [codeOf_append_of_mem comment]
      · rw [codeOf_of_not_mem comment] at empty ⊢
        rw [codeOf_append_of_not_mem comment, takeWhile_append_of_trim_ne_nil empty]
    rw [indent]

end Literal

/-! ## Significant lines -/

namespace Source

open Blank

/-- The literals of a text: what is left of each line without its comment and the white space around
it, if anything is. -/
def significant (text : List Char) : List (List Char) :=
  ((text.splitOn '\n').map fun line => trim (Literal.codeOf line)).filter (· ≠ [])

@[simp] theorem significant_nil : significant [] = [] := rfl

theorem significant_append (a b : List Char) :
    significant (a ++ '\n' :: b) = significant a ++ significant b := by
  simp only [significant, List.splitOn_append_cons_self, List.map_append, List.filter_append]

theorem significant_of_not_mem {line : List Char} (whole : '\n' ∉ line) :
    significant line =
      if trim (Literal.codeOf line) = [] then [] else [trim (Literal.codeOf line)] := by
  rw [significant, List.splitOn_eq_singleton whole, List.map_singleton]
  split
  · next none_left => simp [none_left]
  · next something => simp [something]

theorem significant_append_of_starts {before : List Char} (starts : Line.StartsBehind before)
    (rest : List Char) : significant (before ++ rest) = significant before ++ significant rest := by
  rcases starts with rfl | ⟨front, rfl⟩
  · rfl
  · rw [List.append_assoc, List.singleton_append, significant_append, significant_append,
      significant_nil, List.append_nil]

theorem significant_of_isLine {text before line after : List Char}
    (place : Line.IsLine text before line after) :
    significant text = significant before ++ significant line ++ significant after := by
  rw [place.text_eq, List.append_assoc, significant_append_of_starts place.starts,
    List.append_assoc]
  rcases place.ends with rfl | ⟨back, rfl⟩
  · simp
  · have feed : significant ('\n' :: back) = significant [] ++ significant back :=
      significant_append [] back
    rw [significant_append, feed, significant_nil, List.nil_append]

theorem map_text_ofLine? {line : List Char} (whole : '\n' ∉ line) (start : Nat) :
    (Literal.ofLine? start line).toList.map (·.text) = significant line := by
  rw [significant_of_not_mem whole, Literal.ofLine?_eq]
  split <;> rfl

end Source

/-! ## The literals of a text, one line after another -/

namespace Literal

open Line

theorem ofLines_lines_of_not_mem {line : List Char} (whole : '\n' ∉ line) (start : Nat) :
    ofLines start (lines line) = (ofLine? start line).toList := by
  rw [lines_of_not_mem whole]
  split
  · next none_left => simp [none_left, ofLines, ofLine?, codeOf, Blank.trim, Blank.trimStart,
      Blank.trimEnd]
  · simp [ofLines]

theorem ofLines_lines_append {line : List Char} (whole : '\n' ∉ line) (rest : List Char)
    (start : Nat) :
    ofLines start (lines (line ++ '\n' :: rest)) =
      (ofLine? start line).toList ++
        ofLines (start + byteLength (line ++ ['\n'])) (lines rest) := by
  rw [lines_append whole, ofLines, ofLine?_append_feed]

theorem map_text_ofLines (text : List Char) :
    ∀ start, (ofLines start (lines text)).map (·.text) = Source.significant text := by
  induction text using text_induction with
  | last line whole =>
    intro start
    rw [ofLines_lines_of_not_mem whole, Source.map_text_ofLine? whole]
  | more line rest whole ih =>
    intro start
    rw [ofLines_lines_append whole, List.map_append, Source.map_text_ofLine? whole, ih,
      Source.significant_append]

end Literal

namespace Source

open Line Literal

theorem map_text_literals (s : Source) :
    s.literals.map (·.text) = significant s.text.toList :=
  map_text_ofLines s.text.toList 0

/-- A literal that is read from a text is that of a line, and the literals read before it are those
of the text before this line. -/
theorem exists_place (text : List Char) :
    ∀ {start : Nat} {earlier later : List Literal} {l : Literal},
      ofLines start (lines text) = earlier ++ l :: later →
      ∃ before line after, IsLine text before line after ∧
        earlier.map (·.text) = significant before ∧
        ofLine? (start + byteLength before) line = some l := by
  induction text using text_induction with
  | last line whole =>
    intro start earlier later l read
    rw [ofLines_lines_of_not_mem whole] at read
    cases found : ofLine? start line with
    | none => simp [found] at read
    | some m =>
      rw [found, Option.toList_some, List.singleton_eq_append_iff] at read
      obtain ⟨rfl, here⟩ | ⟨-, here⟩ := read
      · obtain ⟨rfl, -⟩ := List.cons.inj here
        exact ⟨[], line, [], ⟨by simp, .inl rfl, whole, .inl rfl⟩, rfl, found⟩
      · cases here
  | more line rest whole ih =>
    intro start earlier later l read
    rw [ofLines_lines_append whole] at read
    have on_later_line {earlier' : List Literal}
        (read' : ofLines (start + byteLength (line ++ ['\n'])) (lines rest) =
          earlier' ++ l :: later)
        (split : earlier = (ofLine? start line).toList ++ earlier') :
        ∃ before part after, IsLine (line ++ '\n' :: rest) before part after ∧
          earlier.map (·.text) = significant before ∧
          ofLine? (start + byteLength before) part = some l := by
      obtain ⟨before, part, after, place, texts, found⟩ := ih read'
      refine ⟨line ++ '\n' :: before, part, after, place.after_line line, ?_, ?_⟩
      · rw [split, List.map_append, map_text_ofLine? whole, texts, significant_append]
      · rw [← found]
        congr 1
        simp [Nat.add_assoc]
    cases found : ofLine? start line with
    | none => exact on_later_line (by simpa [found] using read) (by simp [found])
    | some m =>
      rw [found] at read
      cases earlier with
      | nil =>
        obtain ⟨rfl, -⟩ := List.cons.inj read
        exact ⟨[], line, '\n' :: rest, ⟨by simp, .inl rfl, whole, .inr ⟨rest, rfl⟩⟩, rfl, found⟩
      | cons first earlier =>
        obtain ⟨rfl, read'⟩ := List.cons.inj read
        exact on_later_line read' (by simp [found])

end Source

end EightBit
