/-
# EightBit.Proofs.Source.FirstError -- the literal a refused text is reported for

When a text is no program, its report is about the first significant line in the way: either the
first one memory has no room for, or one before it whose literal cannot be read.  The report's label
marks the bytes of the literal on this line (`Label.Marks`), whatever characters stand before it.
-/
import EightBit.Proofs.Source.Lines

namespace EightBit

set_option autoImplicit false

/-! ## Labels -/

theorem Line.byteLength_eq_utf8ByteSize (text : List Char) :
    byteLength text = (String.ofList text).utf8ByteSize := by
  induction text with
  | nil => rfl
  | cons c text ih => simp [ih]

/-- The label's bytes lie within the source, start and end between two of its characters, and are
those of `part`. -/
structure Label.Marks (l : Label) (source : String) (part : List Char) : Prop where
  within : l.offset + l.length ≤ source.utf8ByteSize
  starts : String.Pos.Raw.IsValid source ⟨l.offset⟩
  ends : String.Pos.Raw.IsValid source ⟨l.offset + l.length⟩
  slice : source.toByteArray.extract l.offset (l.offset + l.length) =
    (String.ofList part).toByteArray

theorem Label.marks_of_append {l : Label} {source : String} {front part back : List Char}
    (source_eq : source.toList = front ++ part ++ back)
    (offset : l.offset = Line.byteLength front) (length : l.length = Line.byteLength part) :
    l.Marks source part := by
  have split : source = String.ofList front ++ (String.ofList part ++ String.ofList back) := by
    rw [← String.ofList_append, ← String.ofList_append, ← List.append_assoc, ← source_eq,
      String.ofList_toList]
  rw [Line.byteLength_eq_utf8ByteSize] at offset length
  refine ⟨?_, ?_, ?_, ?_⟩
  · rw [split, offset, length, String.utf8ByteSize_append, String.utf8ByteSize_append]
    omega
  · exact String.Pos.Raw.isValid_iff_exists_append.2 ⟨_, _, split, by rw [offset]; rfl⟩
  · refine String.Pos.Raw.isValid_iff_exists_append.2
      ⟨String.ofList front ++ String.ofList part, String.ofList back, ?_, ?_⟩
    · rw [split, String.append_assoc]
    · rw [offset, length, ← String.utf8ByteSize_append]
      rfl
  · rw [split, String.toByteArray_append, String.toByteArray_append, offset, length,
      ← String.size_toByteArray, ← String.size_toByteArray]
    have moved := ByteArray.extract_append_size_add (a := (String.ofList front).toByteArray)
      (b := (String.ofList part).toByteArray ++ (String.ofList back).toByteArray)
      (i := 0) (j := (String.ofList part).toByteArray.size)
    rw [Nat.add_zero] at moved
    rw [moved, ByteArray.extract_append_eq_left rfl]

/-! ## Trimmed literals -/

namespace Blank

theorem isBlank_head_trimStart {c : Char} {text : List Char} (h : (trimStart text).head? = some c) :
    isBlank c = false := by
  have := List.head?_dropWhile_not isBlank text
  rw [trimStart] at h
  simpa only [h] using this

theorem isBlank_getLast_trim {c : Char} {text : List Char} (h : (trim text).getLast? = some c) :
    isBlank c = false := by
  rw [trim, trimEnd, List.getLast?_reverse] at h
  exact isBlank_head_trimStart h

theorem isBlank_head_trim {c : Char} {text : List Char} (h : (trim text).head? = some c) :
    isBlank c = false := by
  obtain ⟨back, -, split⟩ := trimStart_eq_trim_append text
  refine @isBlank_head_trimStart _ text ?_
  rw [split, List.head?_append, h]
  rfl

end Blank

/-- A literal stands alone: no comment, no line feed and no white space at its ends are part of
it. -/
structure Literal.StandsAlone (text : List Char) : Prop where
  something : text ≠ []
  code : '#' ∉ text
  whole : '\n' ∉ text
  head : ∀ {c : Char}, text.head? = some c → Blank.isBlank c = false
  last : ∀ {c : Char}, text.getLast? = some c → Blank.isBlank c = false

/-- A literal comes after the white space its line begins with. -/
theorem Literal.exists_indent_of_ofLine? {start : Nat} {line : List Char} {l : Literal}
    (found : ofLine? start line = some l) :
    ∃ indent back, (∀ c ∈ indent, Blank.isBlank c = true) ∧
      line = indent ++ l.text ++ back ∧ l.offset = start + Line.byteLength indent := by
  obtain ⟨-, offset, text⟩ := eq_of_ofLine? found
  obtain ⟨back, -, code_eq⟩ := Blank.eq_trim_append (codeOf line)
  refine ⟨(codeOf line).takeWhile Blank.isBlank, back ++ line.dropWhile (· != '#'),
    fun c mem => List.mem_takeWhile_imp mem, ?_, offset⟩
  rw [text, ← List.append_assoc, ← code_eq, codeOf, List.takeWhile_append_dropWhile]

theorem Literal.standsAlone_trim_codeOf {line : List Char} (whole : '\n' ∉ line)
    (something : Blank.trim (codeOf line) ≠ []) : StandsAlone (Blank.trim (codeOf line)) := by
  have on_line {c : Char} (mem : c ∈ Blank.trim (codeOf line)) : c ∈ codeOf line := by
    obtain ⟨back, -, split⟩ := Blank.eq_trim_append (codeOf line)
    rw [split]
    simp [mem]
  refine ⟨something, fun mem => ?_, fun mem => ?_, Blank.isBlank_head_trim,
    Blank.isBlank_getLast_trim⟩
  · simpa using List.mem_takeWhile_imp (on_line mem)
  · exact whole ((List.takeWhile_sublist _).mem (on_line mem))

namespace Source

open Line Literal

/-! ## The first literal in the way -/

/-- The code of what is wrong with the literal of a text that has the literals `earlier` before
it. -/
inductive AtFault (earlier : List (List Char)) (literal : List Char) : String → Prop
  | tooLong (full : earlier.length = 256) : AtFault earlier literal "load::too_long"
  | tooLarge (room : earlier.length < 256) (refused : read literal = .error .tooLarge) :
      AtFault earlier literal "load::too_large"
  | unreadable {cause : LiteralError} (room : earlier.length < 256)
      (refused : read literal = .error cause) (other : cause ≠ .tooLarge) :
      AtFault earlier literal "load::bad_lit"

/-- The report is about the literal of `line`, which is the first one in the way. -/
structure Blames (s : Source) (report : Report) (before line after literal : List Char) : Prop where
  place : IsLine s.text.toList before line after
  trimmed : literal = Blank.trim (codeOf line)
  /-- The lines before it have the literals that are listed first, all of which can be read. -/
  listed : significant s.text.toList = significant before ++ literal :: significant after
  earlier : ∀ text ∈ significant before, ∃ byte, read text = .ok byte
  fault : ∃ code, report.code = some code ∧ AtFault (significant before) literal code
  alone : StandsAlone literal
  /-- The one label marks the literal behind the white space that the line begins with. -/
  labelled : ∃ indent back l, line = indent ++ literal ++ back ∧
    (∀ c ∈ indent, Blank.isBlank c = true) ∧ report.labels = [l] ∧
    l.offset = byteLength (before ++ indent) ∧ l.Marks s.text literal

theorem assemble_eq_error {room : Nat} {ls : List Literal} {e : Error}
    (failed : assemble room ls = .error e) :
    ∃ earlier later, ls = earlier ++ e.literal :: later ∧
      (∀ l ∈ earlier, ∃ byte, l.value = .ok byte) ∧
      (earlier.length = room ∧ e.problem = .tooLong ∨
        earlier.length < room ∧ ∃ cause, e.literal.value = .error cause ∧
          e.problem = .unreadable cause) := by
  induction ls generalizing room with
  | nil => simp [assemble] at failed
  | cons l rest ih =>
    cases room with
    | zero =>
      obtain rfl : ⟨.tooLong, l⟩ = e := by simpa [assemble] using failed
      exact ⟨[], rest, rfl, by simp, .inl ⟨rfl, rfl⟩⟩
    | succ room =>
      cases value : l.value with
      | error cause =>
        obtain rfl : ⟨.unreadable cause, l⟩ = e := by simpa [assemble, value] using failed
        exact ⟨[], rest, rfl, by simp, .inr ⟨Nat.succ_pos room, cause, value, rfl⟩⟩
      | ok byte =>
        have failed' : assemble room rest = .error e := by
          cases assembled : assemble room rest with
          | ok later => simp [assemble, value, assembled, Except.map] at failed
          | error e' => simpa [assemble, value, assembled, Except.map] using failed
        obtain ⟨earlier, later, rest_eq, readable, problem⟩ := ih failed'
        refine ⟨l :: earlier, later, by rw [rest_eq]; rfl, ?_, ?_⟩
        · exact List.forall_mem_cons.2 ⟨⟨byte, value⟩, readable⟩
        · simpa using problem

theorem atFault_of_problem {earlier : List (List Char)} {literal : List Char} {problem : Problem}
    (h : earlier.length = Memory.size ∧ problem = .tooLong ∨
      earlier.length < Memory.size ∧ ∃ cause, read literal = .error cause ∧
        problem = .unreadable cause) :
    AtFault earlier literal problem.code := by
  rcases h with ⟨full, rfl⟩ | ⟨room, cause, refused, rfl⟩
  · exact .tooLong full
  · cases cause with
    | tooLarge => exact .tooLarge room refused
    | empty => exact .unreadable room refused (by decide)
    | invalidDigit => exact .unreadable room refused (by decide)

/-- **The first error and its place.**  The report on a text that is no program is about its first
significant line that is the 257th or whose literal cannot be read, and its label marks this
literal, byte for byte. -/
theorem parse_error (s : Source) {e : Error} (failed : s.parse = .error e) :
    ∃ before line after, s.Blames (e.report s.name) before line after e.literal.text := by
  obtain ⟨earlier, later, literals_eq, readable, problem⟩ := assemble_eq_error failed
  obtain ⟨before, line, after, place, texts, found⟩ := exists_place _ literals_eq
  rw [Nat.zero_add] at found
  obtain ⟨something, -, text⟩ := eq_of_ofLine? found
  obtain ⟨indent, back, blank, line_eq, offset⟩ := exists_indent_of_ofLine? found
  refine ⟨before, line, after, ⟨place, text, ?_, ?_, ?_, ?_, ?_⟩⟩
  · rw [significant_of_isLine place, significant_of_not_mem place.whole, if_neg something, text,
      List.append_assoc, List.singleton_append]
  · rw [← texts]
    exact List.forall_mem_map.2 readable
  · refine ⟨_, rfl, atFault_of_problem ?_⟩
    rwa [← texts, List.length_map]
  · exact text ▸ standsAlone_trim_codeOf place.whole something
  · rw [← byteLength_append] at offset
    have source_eq : s.text.toList = before ++ indent ++ e.literal.text ++ (back ++ after) := by
      rw [place.text_eq, line_eq]
      simp only [List.append_assoc]
    exact ⟨indent, back, _, line_eq, blank, rfl, offset,
      Label.marks_of_append source_eq offset rfl⟩

/-- The literal comes after a comment of two-byte characters and an ideographic space; the last of
its two characters is a digit that is not binary. -/
theorem parse_wide_error :
    let s : Source := ⟨"wide.ls8", "# ü\n1\n\u3000é2 # x"⟩
    ∃ e, s.parse = .error e ∧ ∃ l, (e.report s.name).labels = [l] ∧ l.offset = 10 ∧ l.length = 3 ∧
      l.Marks s.text ['é', '2'] := by
  intro s
  have failed : s.parse = .error ⟨.unreadable .invalidDigit, ⟨10, ['é', '2']⟩⟩ := by
    simp only [s]
    decide
  obtain ⟨before, line, after, blames⟩ := parse_error s failed
  obtain ⟨indent, back, l, -, -, labels, -, marks⟩ := blames.labelled
  obtain rfl : _ = l := (List.cons.inj labels).1
  exact ⟨_, failed, _, rfl, rfl, by decide, marks⟩

end Source

end EightBit
