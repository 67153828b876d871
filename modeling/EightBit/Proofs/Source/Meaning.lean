/-
# EightBit.Proofs.Source.Meaning -- what a program text means

A text is a program exactly if memory has room for its significant lines and every one of their
literals can be read; the program is the bytes they are read as, in order
(`Source.parse_eq_ok_iff`).  Nothing else in the text counts.  `Source.Edit` has the changes that
leave the literals alone: changes to a comment, to the white space around a literal, to the lines
without a literal and to the line feed at the end.  Texts a chain of such changes leads between list
the same literals (`Source.significant_eq_of_edits`), so they stand for the same program.
-/
import EightBit.Proofs.Limit
import EightBit.Proofs.Source.Lines
import Mathlib.Data.List.Forall2
import Mathlib.Logic.Relation

namespace EightBit

set_option autoImplicit false

/-! ## Edits -/

namespace Line

/-- White space that does not end the line. -/
def IsSpace (text : List Char) : Prop :=
  ∀ c ∈ text, c ≠ '\n' ∧ Blank.isBlank c = true

instance (text : List Char) : Decidable (IsSpace text) :=
  decidable_of_iff ((text.all fun c => c != '\n' && Blank.isBlank c) = true) (by simp [IsSpace])

/-- A comment or nothing. -/
def IsTail (text : List Char) : Prop :=
  text = [] ∨ ∃ comment, text = '#' :: comment ∧ '\n' ∉ comment

/-- A change within a line that leaves its literal alone. -/
inductive Edit : List Char → List Char → Prop
  /-- The text of a comment changes. -/
  | comment (code : List Char) {old new : List Char} (whole : '\n' ∉ code ++ new) :
      Edit (code ++ '#' :: old) (code ++ '#' :: new)
  /-- The white space around a literal changes. -/
  | space {front literal back tail front' back' : List Char}
      (code : '#' ∉ literal) (whole : '\n' ∉ literal) (comment : IsTail tail)
      (old_front : IsSpace front) (old_back : IsSpace back)
      (new_front : IsSpace front') (new_back : IsSpace back') :
      Edit (front ++ literal ++ back ++ tail) (front' ++ literal ++ back' ++ tail)

theorem IsTail.not_mem {tail : List Char} (h : IsTail tail) : '\n' ∉ tail := by
  rcases h with rfl | ⟨comment, rfl, whole⟩
  · exact List.not_mem_nil
  · simpa using whole

theorem IsSpace.not_mem {space : List Char} (h : IsSpace space) : '\n' ∉ space := by
  intro feed
  exact (h _ feed).1 rfl

theorem IsSpace.isBlank {space : List Char} (h : IsSpace space) :
    ∀ c ∈ space, Blank.isBlank c = true := by
  intro c mem
  exact (h c mem).2

theorem IsSpace.code {space : List Char} (h : IsSpace space) : '#' ∉ space := by
  intro hash
  have blank : Blank.isBlank '#' = true := h.isBlank _ hash
  revert blank
  decide

theorem Edit.whole {line line' : List Char} (edit : Edit line line') : '\n' ∉ line' := by
  cases edit with
  | comment code whole =>
    simp only [List.mem_append, List.mem_cons, not_or] at whole ⊢
    exact ⟨whole.1, by decide, whole.2⟩
  | space code whole comment old_front old_back new_front new_back =>
    simp only [List.mem_append, not_or]
    exact ⟨⟨⟨new_front.not_mem, whole⟩, new_back.not_mem⟩, comment.not_mem⟩

/-- White space around what stands on a line and a comment behind it are not part of what counts. -/
theorem trim_codeOf_around {front literal back tail : List Char} (code : '#' ∉ literal)
    (comment : IsTail tail) (before : IsSpace front) (behind : IsSpace back) :
    Blank.trim (Literal.codeOf (front ++ literal ++ back ++ tail)) = Blank.trim literal := by
  have plain : '#' ∉ front ++ literal ++ back := by
    simp only [List.mem_append, not_or]
    exact ⟨⟨before.code, code⟩, behind.code⟩
  have nothing : Literal.codeOf tail = [] := by
    rcases comment with rfl | ⟨text, rfl, -⟩ <;> rfl
  rw [Literal.codeOf_append_of_not_mem plain, nothing, List.append_nil,
    Blank.trim_append_blank behind.isBlank, Blank.trim_blank_append before.isBlank]

theorem Edit.trim_codeOf_eq {line line' : List Char} (edit : Edit line line') :
    Blank.trim (Literal.codeOf line) = Blank.trim (Literal.codeOf line') := by
  cases edit with
  | @comment code old new whole =>
    have cut (text : List Char) :
        Literal.codeOf (code ++ '#' :: text) = Literal.codeOf (code ++ ['#']) := by
      rw [← Literal.codeOf_append_of_mem (a := code ++ ['#']) (by simp) text, List.append_assoc]
      rfl
    rw [cut old, cut new]
  | space code whole comment old_front old_back new_front new_back =>
    rw [trim_codeOf_around code comment old_front old_back,
      trim_codeOf_around code comment new_front new_back]

end Line

namespace Source

open Line

/-- A change to a text that leaves its literals alone. -/
inductive Edit : List Char → List Char → Prop
  /-- A line changes that keeps its literal. -/
  | line {text before line line' after : List Char} (place : IsLine text before line after)
      (edit : Line.Edit line line') : Edit text (before ++ line' ++ after)
  /-- A line of white space, with a comment or without one, is inserted. -/
  | insert {before after space tail : List Char} (starts : StartsBehind before)
      (blank : IsSpace space) (comment : IsTail tail) :
      Edit (before ++ after) (before ++ (space ++ tail ++ '\n' :: after))
  /-- A line feed ends the text. -/
  | finalFeed (text : List Char) : Edit text (text ++ ['\n'])

/-! ## Edits keep the literals -/

theorem significant_of_idle {space tail : List Char} (blank : IsSpace space)
    (comment : IsTail tail) : significant (space ++ tail) = [] := by
  have whole : '\n' ∉ space ++ tail := by
    simp only [List.mem_append, not_or]
    exact ⟨blank.not_mem, comment.not_mem⟩
  have idle : Blank.trim (Literal.codeOf ([] ++ [] ++ space ++ tail)) = Blank.trim [] :=
    trim_codeOf_around List.not_mem_nil comment (by simp [IsSpace]) blank
  exact (significant_of_not_mem whole).trans (if_pos idle)

theorem significant_eq_of_edit {text text' : List Char} (edit : Edit text text') :
    significant text = significant text' := by
  cases edit with
  | line place edit =>
    rw [significant_of_isLine place,
      significant_of_isLine ⟨rfl, place.starts, edit.whole, place.ends⟩,
      significant_of_not_mem place.whole, significant_of_not_mem edit.whole, edit.trim_codeOf_eq]
  | insert starts blank comment =>
    rw [significant_append_of_starts starts, significant_append_of_starts starts,
      significant_append, significant_of_idle blank comment, List.nil_append]
  | finalFeed =>
    have : significant (text ++ '\n' :: []) = significant text ++ significant [] :=
      significant_append text []
    rw [this, significant_nil, List.append_nil]

theorem significant_eq_of_edits {text text' : List Char}
    (edits : Relation.EqvGen Edit text text') : significant text = significant text' := by
  induction edits with
  | rel _ _ edit => exact significant_eq_of_edit edit
  | refl _ => rfl
  | symm _ _ _ ih => exact ih.symm
  | trans _ _ _ _ _ first second => exact first.trans second

/-! ## The program of a text -/

theorem assemble_eq_ok_iff {room : Nat} {ls : List Literal} {program : List UInt8} :
    assemble room ls = .ok program ↔
      ls.length ≤ room ∧ List.Forall₂ (fun l byte => l.value = .ok byte) ls program := by
  induction ls generalizing room program with
  | nil => cases program <;> simp [assemble]
  | cons l rest ih =>
    cases room with
    | zero => simp [assemble]
    | succ room =>
      cases value : l.value with
      | error cause => simp [assemble, value, List.forall₂_cons_left_iff]
      | ok byte =>
        have first : assemble (room + 1) (l :: rest) = .ok program ↔
            ∃ later, assemble room rest = .ok later ∧ program = byte :: later := by
          cases assembled : assemble room rest <;>
            simp [assemble, value, assembled, Except.map, eq_comm]
        simp only [first, ih, List.forall₂_cons_left_iff, value, List.length_cons,
          Nat.add_le_add_iff_right, Except.ok.injEq]
        constructor
        · rintro ⟨later, ⟨few, values⟩, rfl⟩
          exact ⟨few, byte, later, rfl, values, rfl⟩
        · rintro ⟨few, _, later, rfl, values, rfl⟩
          exact ⟨later, ⟨few, values⟩, rfl⟩

theorem exists_forall₂_iff {α β : Type} {R : α → β → Prop} {l : List α} :
    (∃ u, List.Forall₂ R l u) ↔ ∀ a ∈ l, ∃ b, R a b := by
  induction l with
  | nil => simp
  | cons a l ih =>
    simp only [List.forall₂_cons_left_iff, List.forall_mem_cons, ← ih]
    constructor
    · rintro ⟨_, b, u, here, later, rfl⟩
      exact ⟨⟨b, here⟩, u, later⟩
    · rintro ⟨⟨b, here⟩, u, later⟩
      exact ⟨b :: u, b, u, here, later, rfl⟩

theorem parse_eq_ok_iff {s : Source} {program : List UInt8} :
    s.parse = .ok program ↔
      (significant s.text.toList).length ≤ Memory.size ∧
        List.Forall₂ (fun literal byte => Literal.read literal = .ok byte)
          (significant s.text.toList) program := by
  rw [parse, assemble_eq_ok_iff, ← map_text_literals, List.length_map,
    List.forall₂_map_left_iff]
  rfl

/-- **What a source text means.**  A text is a program if and only if it has at most 256 significant
lines and each of their literals can be read.  The program then has the value of each literal in the
order of the lines; any text that edits of comments, of white space and of lines without a literal
lead to is the same program; and a machine takes it. -/
theorem parse_meaning (s : Source) :
    ((∃ program, s.parse = .ok program) ↔
      (significant s.text.toList).length ≤ 256 ∧
        ∀ literal ∈ significant s.text.toList, ∃ byte, Literal.read literal = .ok byte) ∧
    ∀ program, s.parse = .ok program →
      List.Forall₂ (fun literal byte => Literal.read literal = .ok byte)
        (significant s.text.toList) program ∧
      (∀ t : Source, Relation.EqvGen Edit s.text.toList t.text.toList → t.parse = .ok program) ∧
      ∃ m, Machine.ofProgram program = .ok m := by
  refine ⟨?_, fun program parsed => ?_⟩
  · simp only [parse_eq_ok_iff, exists_and_left, exists_forall₂_iff, Memory.size]
  · obtain ⟨few, values⟩ := parse_eq_ok_iff.1 parsed
    have fits : program.length ≤ Memory.size := values.length_eq ▸ few
    obtain ⟨m, loaded, -⟩ := Machine.ofProgram_of_le fits
    refine ⟨values, fun t edits => ?_, m, loaded⟩
    rw [parse_eq_ok_iff, ← significant_eq_of_edits edits]
    exact ⟨few, values⟩

/-- A comment is reworded, a tab put before the literal, a comment line above it and a line feed
behind it. -/
theorem parse_two_edited :
    (Source.mk "two.ls8" "10 # two").parse = .ok [2] ∧
    (Source.mk "two.ls8" "# start\n\t10 # 2\r\n").parse = .ok [2] := by
  have parsed : (Source.mk "two.ls8" "10 # two").parse = .ok [2] := by decide
  refine ⟨parsed, ((parse_meaning _).2 _ parsed).2.1 _ ?_⟩
  have reworded : Edit "10 # two".toList ([] ++ "10 # 2\r".toList ++ []) :=
    .line ⟨rfl, .inl rfl, by decide, .inl rfl⟩
      (@Line.Edit.comment ['1', '0', ' '] " two".toList " 2\r".toList (by decide))
  have indented : Edit "10 # 2\r".toList ([] ++ "\t10 # 2\r".toList ++ []) :=
    .line ⟨rfl, .inl rfl, by decide, .inl rfl⟩
      (@Line.Edit.space [] ['1', '0'] [' '] "# 2\r".toList ['\t'] [' '] (by decide) (by decide)
        (.inr ⟨" 2\r".toList, rfl, by decide⟩) (by decide) (by decide) (by decide) (by decide))
  have inserted : Edit "\t10 # 2\r".toList "# start\n\t10 # 2\r".toList :=
    @Edit.insert [] "\t10 # 2\r".toList [] "# start".toList (.inl rfl) (by decide)
      (.inr ⟨" start".toList, rfl, by decide⟩)
  exact .trans _ _ _ (.rel _ _ reworded) <| .trans _ _ _ (.rel _ _ indented) <|
    .trans _ _ _ (.rel _ _ inserted) (.rel _ _ (.finalFeed _))

end Source

end EightBit
