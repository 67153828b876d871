/-
# EightBit.Text.Words -- the words of a text

White space divides a text into words, however much of it stands between two of them.  So a text
that is laid out in columns can be read by its words, whatever the widths of its columns.

A text that ends with white space has the same words whatever stands behind it.  `Spells` says so,
and texts that spell words are put together by `Spells.append`; numerals are words
(`isWord_digits`).
-/
import EightBit.Text.Blank
import EightBit.Text.Visible

namespace EightBit

open Blank

set_option autoImplicit false

/-- The words of a text: its longest parts without white space. -/
def words (text : List Char) : List String :=
  ((text.splitOnP isBlank).filter fun part => !part.isEmpty).map String.ofList

theorem words_append_cons (a b : List Char) {c : Char} (blank : isBlank c = true) :
    words (a ++ c :: b) = words a ++ words b := by
  rw [words, List.splitOnP_append_cons a b blank, List.filter_append, List.map_append]
  rfl

theorem words_blank_append {gap : List Char} (blank : gap.all isBlank = true) (rest : List Char) :
    words (gap ++ rest) = words rest := by
  induction gap with
  | nil => rfl
  | cons c gap ih =>
    rw [List.all_cons, Bool.and_eq_true] at blank
    exact (words_append_cons [] (gap ++ rest) blank.1).trans (ih blank.2)

/-! ## Words and gaps -/

/-- The text is one word. -/
def IsWord (text : String) : Prop :=
  text.toList ≠ [] ∧ text.toList.all (fun c => !isBlank c) = true

/-- The text is white space, and there is some. -/
def IsGap (text : String) : Prop :=
  text.toList ≠ [] ∧ text.toList.all isBlank = true

instance (text : String) : Decidable (IsWord text) :=
  inferInstanceAs (Decidable (_ ∧ _))

instance (text : String) : Decidable (IsGap text) :=
  inferInstanceAs (Decidable (_ ∧ _))

theorem IsWord.append {a b : String} (ha : IsWord a) (hb : IsWord b) : IsWord (a ++ b) := by
  constructor
  · simp [ha.1]
  · rw [String.toList_append, List.all_append, ha.2, hb.2]
    rfl

theorem words_of_isWord {text : String} (word : IsWord text) : words text.toList = [text] := by
  obtain ⟨nonempty, solid⟩ := word
  have uncut : text.toList.splitOnP isBlank = [text.toList] :=
    List.splitOnP_eq_singleton (by simpa using solid)
  rw [words, uncut]
  simp [nonempty]

namespace Numeral

theorem isWord_digits {base : Nat} (h : 1 < base) (width n : Nat) :
    IsWord (String.ofList (digits base width n)) := by
  refine ⟨by simpa using digits_ne_nil base width n, List.all_eq_true.2 fun c member => ?_⟩
  rw [String.toList_ofList] at member
  exact of_mem_digits (p := fun c => (!isBlank c) = true) (by decide) (by decide) h member

theorem isWord_decimal (n : Nat) : IsWord (decimal n) :=
  isWord_digits (by decide) 1 n

theorem isWord_binary (width n : Nat) : IsWord (binary width n) :=
  isWord_digits (by decide) width n

theorem isWord_hex (width n : Nat) : IsWord (hex width n) :=
  isWord_digits (by decide) width n

end Numeral

/-! ## Texts in front of others -/

/-- The words of the text are these, whatever stands behind it. -/
def Spells (text : String) (ws : List String) : Prop :=
  ∀ rest, words (text.toList ++ rest) = ws ++ words rest

namespace Spells

variable {a b : String} {ws ws' : List String}

theorem empty : Spells "" [] :=
  fun _ => rfl

theorem append (ha : Spells a ws) (hb : Spells b ws') : Spells (a ++ b) (ws ++ ws') := by
  intro rest
  rw [String.toList_append, List.append_assoc, ha, hb, List.append_assoc]

/-- The last word of a text ends at the white space behind it. -/
theorem of_isGap (text : String) {gap : String} (isGap : IsGap gap) :
    Spells (text ++ gap) (words text.toList) := by
  intro rest
  obtain ⟨c, behind, spelled⟩ := List.exists_cons_of_ne_nil isGap.1
  have blank := isGap.2
  rw [spelled, List.all_cons, Bool.and_eq_true] at blank
  rw [String.toList_append, spelled, List.append_assoc, List.cons_append,
    words_append_cons _ _ blank.1, words_blank_append blank.2]

theorem word {text gap : String} (isWord : IsWord text) (isGap : IsGap gap) :
    Spells (text ++ gap) [text] :=
  words_of_isWord isWord ▸ of_isGap text isGap

/-- Columns that a text is moved to the right by are not part of its words. -/
theorem alignRight (width : Nat) (h : Spells (a ++ b) ws) :
    Spells (Numeral.alignRight width a ++ b) ws := by
  intro rest
  have blank : (List.replicate (width - a.toList.length) ' ').all isBlank = true := by
    simp [isBlank, ranges]
  have spelled := h rest
  rw [String.toList_append, List.append_assoc] at spelled ⊢
  rw [Numeral.alignRight, String.toList_ofList, List.leftpad, List.append_assoc,
    words_blank_append blank, spelled]

theorem join_flatMap {α : Type} {f : α → List String} {g : α → List String}
    (each : ∀ a, Spells (String.join (f a)) (g a)) (as : List α) :
    Spells (String.join (as.flatMap f)) (as.flatMap g) := by
  induction as with
  | nil => exact empty
  | cons a as ih =>
    rw [List.flatMap_cons, List.flatMap_cons, String.join_append]
    exact (each a).append ih

theorem words_eq (h : Spells a ws) : words a.toList = ws := by
  have alone := h []
  rwa [List.append_nil, show words [] = [] from rfl, List.append_nil] at alone

end Spells

end EightBit
