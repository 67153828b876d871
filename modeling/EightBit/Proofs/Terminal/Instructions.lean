/-
# EightBit.Proofs.Terminal.Instructions -- the pieces a text is stripped to

From left to right a text falls into pieces: characters outside all instructions, and instructions.
An instruction starts with an ESC and ends with the next `m`; a further ESC before that `m` belongs
to it.  One that no `m` follows is never closed and reaches to the end, so it is the last piece.

`exists_cut` and `found_inj` say that every text falls into pieces in one way.  Stripping keeps the
characters outside and nothing else, and what it makes of the text behind depends on the pieces only
through whether the last is unclosed (`stripFrom_append_of_found`).  `strip_cut` puts these together.
-/
import EightBit.Terminal.Escape

namespace EightBit.Escape

set_option autoImplicit false

/-! ## Pieces -/

inductive Piece where
  /-- A character outside all instructions. -/
  | character (c : Char)
  /-- An instruction, by what stands between its ESC and its `m`. -/
  | instruction (body : List Char)
  /-- An instruction that is never closed, by what stands behind its ESC. -/
  | unclosed (body : List Char)
  deriving DecidableEq, Repr

namespace Piece

def text : Piece → List Char
  | character c => [c]
  | instruction body => esc :: (body ++ ['m'])
  | unclosed body => esc :: body

/-- What is left of a piece when instructions are removed. -/
def outside : Piece → List Char
  | character c => [c]
  | instruction _ => []
  | unclosed _ => []

def isUnclosed : Piece → Bool
  | character _ => false
  | instruction _ => false
  | unclosed _ => true

end Piece

def textOf (pieces : List Piece) : List Char :=
  pieces.flatMap Piece.text

/-- What is left of a text that falls into these pieces when its instructions are removed. -/
def outsideOf (pieces : List Piece) : List Char :=
  pieces.flatMap Piece.outside

@[simp] theorem textOf_nil : textOf [] = [] := rfl

@[simp] theorem textOf_character (c : Char) (rest : List Piece) :
    textOf (.character c :: rest) = c :: textOf rest := rfl

@[simp] theorem textOf_instruction (body : List Char) (rest : List Piece) :
    textOf (.instruction body :: rest) = esc :: (body ++ 'm' :: textOf rest) := by
  simp [textOf, Piece.text]

@[simp] theorem textOf_unclosed (body : List Char) : textOf [.unclosed body] = esc :: body := by
  simp [textOf, Piece.text]

/-- Pieces as they can be found from left to right. -/
inductive Found : List Piece → Prop
  | nil : Found []
  | character {c : Char} {rest : List Piece} (plain : c ≠ esc) (behind : Found rest) :
      Found (.character c :: rest)
  | instruction {body : List Char} {rest : List Piece} (first : 'm' ∉ body)
      (behind : Found rest) : Found (.instruction body :: rest)
  | unclosed {body : List Char} (never : 'm' ∉ body) : Found [.unclosed body]

/-- The pieces a text falls into. -/
structure Cut (text : List Char) (pieces : List Piece) : Prop where
  found : Found pieces
  whole : textOf pieces = text

/-! ## One way to cut -/

/-- The first `m` divides a text in one way. -/
theorem append_first_inj {a b x y : List Char} (ha : 'm' ∉ a) (hb : 'm' ∉ b)
    (same : a ++ 'm' :: x = b ++ 'm' :: y) : a = b ∧ x = y := by
  rcases List.append_eq_append_iff.1 same with ⟨between, rfl, tail⟩ | ⟨between, rfl, tail⟩
  · cases between with
    | nil => exact ⟨(List.append_nil a).symm, (List.cons.inj tail).2⟩
    | cons c between =>
      obtain ⟨rfl, -⟩ := List.cons.inj tail
      exact absurd (List.mem_append_right a List.mem_cons_self) hb
  · cases between with
    | nil => exact ⟨List.append_nil b, (List.cons.inj tail).2.symm⟩
    | cons c between =>
      obtain ⟨rfl, -⟩ := List.cons.inj tail
      exact absurd (List.mem_append_right b List.mem_cons_self) ha

theorem found_inj {a b : List Piece} (ha : Found a) (hb : Found b)
    (same : textOf a = textOf b) : a = b := by
  induction ha generalizing b with
  | nil =>
    cases hb with
    | nil => rfl
    | character | instruction | unclosed => simp at same
  | character plain _ ih =>
    cases hb with
    | nil => simp at same
    | character _ behind =>
      rw [textOf_character, textOf_character, List.cons.injEq] at same
      rw [same.1, ih behind same.2]
    | instruction | unclosed => simp [plain] at same
  | @instruction body rest first _ ih =>
    cases hb with
    | nil => simp at same
    | character plain => simp [plain.symm] at same
    | instruction first' behind =>
      rw [textOf_instruction, textOf_instruction, List.cons.injEq] at same
      obtain ⟨rfl, rest⟩ := append_first_inj first first' same.2
      rw [ih behind rest]
    | unclosed never =>
      rw [textOf_instruction, textOf_unclosed, List.cons.injEq] at same
      rw [← same.2] at never
      simp at never
  | @unclosed body never =>
    cases hb with
    | nil => simp at same
    | character plain => simp [plain.symm] at same
    | instruction =>
      rw [textOf_instruction, textOf_unclosed, List.cons.injEq] at same
      rw [same.2] at never
      simp at never
    | unclosed =>
      rw [textOf_unclosed, textOf_unclosed, List.cons.injEq] at same
      rw [same.2]

theorem exists_cut (text : List Char) : ∃ pieces, Cut text pieces := by
  -- an instruction takes several characters at once, so the induction is on the length
  induction long : text.length using Nat.strongRecOn generalizing text with
  | _ n ih =>
    subst long
    cases text with
    | nil => exact ⟨[], .nil, rfl⟩
    | cons c rest =>
      by_cases starts : c = esc
      · subst starts
        by_cases closed : 'm' ∈ rest
        · obtain ⟨body, behind, rfl, first⟩ := List.eq_append_cons_of_mem closed
          have shorter : behind.length < (esc :: (body ++ 'm' :: behind)).length := by
            simp only [List.length_cons, List.length_append]
            omega
          obtain ⟨pieces, found, whole⟩ := ih behind.length shorter behind rfl
          exact ⟨.instruction body :: pieces, .instruction first found, by simp [whole]⟩
        · exact ⟨[.unclosed rest], .unclosed closed, textOf_unclosed rest⟩
      · obtain ⟨pieces, found, whole⟩ := ih rest.length (Nat.lt_succ_self _) rest rfl
        exact ⟨.character c :: pieces, .character starts found, by simp [whole]⟩

theorem Cut.unique {text : List Char} {a b : List Piece} (ha : Cut text a) (hb : Cut text b) :
    a = b :=
  found_inj ha.found hb.found (ha.whole.trans hb.whole.symm)

/-! ## What is left -/

theorem stripFrom_true_append {body : List Char} (never : 'm' ∉ body) (rest : List Char) :
    stripFrom true (body ++ rest) = stripFrom true rest := by
  induction body with
  | nil => rfl
  | cons c body ih =>
    rw [List.mem_cons, not_or] at never
    have goesOn : (c != 'm') = true := bne_iff_ne.2 (Ne.symm never.1)
    simpa [stripFrom, goesOn] using ih never.2

/-- An instruction is removed from inside it as from outside. -/
theorem stripFrom_instruction (inside : Bool) {body : List Char} (first : 'm' ∉ body)
    (rest : List Char) :
    stripFrom inside (esc :: (body ++ 'm' :: rest)) = stripFrom false rest := by
  have entered : stripFrom inside (esc :: (body ++ 'm' :: rest)) =
      stripFrom true (body ++ 'm' :: rest) := by
    cases inside <;> rfl
  rw [entered, stripFrom_true_append first]
  rfl

/-- Stripping keeps what is outside, and goes on inside the last piece if that is unclosed. -/
theorem stripFrom_append_of_found {pieces : List Piece} (found : Found pieces)
    (rest : List Char) :
    stripFrom false (textOf pieces ++ rest) =
      outsideOf pieces ++ stripFrom (pieces.any Piece.isUnclosed) rest := by
  induction found with
  | nil => rfl
  | @character c others plain _ ih =>
    rw [textOf_character, List.cons_append, stripFrom, if_neg plain, ih]
    rfl
  | @instruction body others first _ ih =>
    rw [textOf_instruction, List.cons_append, List.append_assoc, List.cons_append,
      stripFrom_instruction false first, ih]
    rfl
  | @unclosed body never =>
    rw [textOf_unclosed, List.cons_append, stripFrom, if_pos rfl, stripFrom_true_append never]
    rfl

theorem stripFrom_of_cut {text : List Char} {pieces : List Piece} (cut : Cut text pieces) :
    stripFrom false text = outsideOf pieces := by
  have := stripFrom_append_of_found cut.found []
  rw [cut.whole, List.append_nil] at this
  rw [this]
  cases pieces.any Piece.isUnclosed <;> exact List.append_nil _

/-- **Stripping removes the instructions and nothing else.**  A text falls into pieces in one way:
instructions, each from an ESC to the next `m` or to the end if there is none, and the characters
outside them; these characters are what is left.  So no ESC is left, a text without ESC is kept, and
stripping twice is stripping once.  If no instruction is unclosed, a text behind is stripped on its
own. -/
theorem strip_cut (s : String) :
    ∃ pieces, (∀ other, Cut s.toList other ↔ other = pieces) ∧
      strip s = String.ofList (outsideOf pieces) ∧
      esc ∉ (strip s).toList ∧ (esc ∉ s.toList → strip s = s) ∧ strip (strip s) = strip s ∧
      (pieces.any Piece.isUnclosed = false → ∀ t, strip (s ++ t) = strip s ++ strip t) := by
  obtain ⟨pieces, cut⟩ := exists_cut s.toList
  have left : strip s = String.ofList (outsideOf pieces) := by
    rw [strip, stripFrom_of_cut cut]
  refine ⟨pieces, fun other => ⟨fun h => h.unique cut, fun same => same ▸ cut⟩, left,
    esc_not_mem_strip s, strip_of_esc_not_mem, strip_of_esc_not_mem (esc_not_mem_strip s), ?_⟩
  intro closed t
  have afresh := stripFrom_append_of_found cut.found t.toList
  rw [cut.whole, closed] at afresh
  rw [left, strip, strip, String.toList_append, afresh, String.ofList_append]

/-- An ESC inside an instruction belongs to it, and what is never closed is removed to the end. -/
example : strip "a\x1bb\x1b[0mc\x1b[1d" = "ac" := by decide

end EightBit.Escape
