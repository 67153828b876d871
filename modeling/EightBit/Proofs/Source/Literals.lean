/-
# EightBit.Proofs.Source.Literals -- what a literal stands for

A literal loses its mark and its separators (`Literal.kept`), then a plus sign that something stands
behind (`Literal.numeral`), and the digits that are left are read one by one.  `Literal.read_eq`
says what this comes to without following the digits: the number that the leading binary digits make
up counts first, and only then whether something else stands behind them.

So separators and zeros before the first digit do not matter (`Literal.read_eq_of_edits`).  The
literals that are read have one of two forms (`Literal.exists_read_iff`): the plain one, with a mark
or none, digits and separators, and the signed one, with a plus sign before the digits as well.
-/
import EightBit.Proofs.Source.Meaning

namespace EightBit

set_option autoImplicit false

namespace Literal

/-! ## Parts of a literal -/

/-- A literal without the mark it may begin with and the separators in it. -/
def kept (text : List Char) : List Char :=
  (if ['0', 'b'] <+: text then text.drop 2 else text).filter (· != '_')

/-- What is kept of a literal, without a plus sign in front that something stands behind. -/
def numeral (text : List Char) : List Char :=
  if (kept text).head? = some '+' ∧ 1 < (kept text).length then (kept text).tail else kept text

def isBit (c : Char) : Bool :=
  c = '0' ∨ c = '1'

/-- The binary digits that the numeral of a literal begins with. -/
def leadingBits (text : List Char) : List Char :=
  (numeral text).takeWhile isBit

/-- The number that binary digits make up. -/
def number (bits : List Char) : Nat :=
  Nat.ofDigitChars 2 bits 0

theorem kept_eq (text : List Char) : kept text = withoutSeparators (withoutMark text) := by
  unfold kept withoutMark withoutSeparators
  split
  · next marked =>
    obtain ⟨rest, rfl⟩ := marked
    rfl
  · next unmarked =>
    split
    · next rest => exact absurd ⟨rest, rfl⟩ unmarked
    · rfl

theorem numeral_eq (text : List Char) : numeral text = withoutSign (kept text) := by
  unfold numeral
  rcases kept text with _ | ⟨c, _ | ⟨d, rest⟩⟩
  · rfl
  · simp [withoutSign]
  · by_cases plus : c = '+' <;> simp [withoutSign, plus]

theorem withoutSeparators_append (a b : List Char) :
    withoutSeparators (a ++ b) = withoutSeparators a ++ withoutSeparators b :=
  List.filter_append a b

theorem withoutSeparators_cons {c : Char} (digit : isBit c = true) (rest : List Char) :
    withoutSeparators (c :: rest) = c :: withoutSeparators rest := by
  refine List.filter_cons_of_pos ?_
  rcases of_decide_eq_true digit with rfl | rfl <;> rfl

theorem withoutSeparators_zeros (n : Nat) :
    withoutSeparators (List.replicate n '0') = List.replicate n '0' := by
  simp [withoutSeparators]

/-! ## Reading digits -/

theorem bit?_of_isBit {c : Char} (h : isBit c = true) : bit? c = some (c.toNat - '0'.toNat) := by
  rcases of_decide_eq_true h with rfl | rfl
  · rfl
  · rfl

theorem bit?_of_not_isBit {c : Char} (h : isBit c = false) : bit? c = none := by
  have other := of_decide_eq_false h
  unfold bit?
  split
  · exact absurd (.inl rfl) other
  · exact absurd (.inr rfl) other
  · rfl

/-- Digits never make a number smaller. -/
theorem le_ofDigitChars (v : Nat) (bits : List Char) : v ≤ Nat.ofDigitChars 2 bits v := by
  induction bits generalizing v with
  | nil => exact Nat.le_refl v
  | cons c rest ih =>
    rw [Nat.ofDigitChars_cons]
    have := ih (2 * v + (c.toNat - '0'.toNat))
    omega

/-- From a value that fits in a byte, the digits are read as the number that the leading bits make
of it, if that fits in a byte and nothing else stands behind them. -/
theorem readBits_eq {v : Nat} (small : v ≤ 255) (ds : List Char) :
    readBits v ds =
      if 255 < Nat.ofDigitChars 2 (ds.takeWhile isBit) v then .error .tooLarge
      else if ds.takeWhile isBit = ds then .ok (UInt8.ofNat (Nat.ofDigitChars 2 ds v))
      else .error .invalidDigit := by
  induction ds generalizing v with
  | nil => simp [readBits, small]
  | cons c rest ih =>
    cases digit : isBit c with
    | false => simp [readBits, bit?_of_not_isBit digit, digit, small]
    | true =>
      simp only [readBits, bit?_of_isBit digit, List.takeWhile_cons_of_pos digit,
        Nat.ofDigitChars_cons, List.cons.injEq, true_and]
      split
      · next fits => exact ih fits
      · next above =>
        have := le_ofDigitChars (2 * v + (c.toNat - '0'.toNat)) (rest.takeWhile isBit)
        rw [if_pos (by omega)]

/-- What a literal is read as, by its parts. -/
theorem read_eq (text : List Char) :
    read text =
      if 255 < number (leadingBits text) then .error .tooLarge
      else if numeral text ≠ [] ∧ leadingBits text = numeral text then
        .ok (UInt8.ofNat (number (numeral text)))
      else .error (if kept text = [] then .empty else .invalidDigit) := by
  unfold read leadingBits number
  rw [← kept_eq, numeral_eq]
  cases none_left : kept text with
  | nil => rfl
  | cons c rest =>
    have something : withoutSign (c :: rest) ≠ [] := by
      cases rest with
      | nil => simp [withoutSign]
      | cons d rest => by_cases plus : c = '+' <;> simp [withoutSign, plus]
    simp only [readBits_eq (Nat.zero_le 255), something, ne_eq, not_false_eq_true, true_and,
      reduceCtorEq, if_false]

/-! ## Edits that keep the value -/

/-- The mark of a literal: nothing, or `0b` when the literal begins with it. -/
def IsMark (mark body : List Char) : Prop :=
  mark = ['0', 'b'] ∨ mark = [] ∧ ¬ ['0', 'b'] <+: body

/-- A change to a literal that leaves its value alone. -/
inductive Edit : List Char → List Char → Prop
  /-- Zeros are put directly before the first digit, where the numeral begins with a digit. -/
  | zeros {mark front back : List Char} {c : Char} (n : Nat)
      (marked : IsMark mark (front ++ c :: back)) (digit : isBit c = true)
      (first : ∀ x ∈ front, isBit x = false)
      (leads : leadingBits (mark ++ (front ++ c :: back)) ≠ []) :
      Edit (mark ++ (front ++ c :: back)) (mark ++ (front ++ (List.replicate n '0' ++ c :: back)))
  /-- A separator is put anywhere behind the mark. -/
  | separator {mark front back : List Char} (marked : IsMark mark (front ++ back)) :
      Edit (mark ++ (front ++ back)) (mark ++ (front ++ '_' :: back))

theorem kept_of_isMark {mark body : List Char} (marked : IsMark mark body) :
    kept (mark ++ body) = withoutSeparators body := by
  rcases marked with rfl | ⟨rfl, unmarked⟩
  · rw [kept, if_pos (List.prefix_append _ _)]
    rfl
  · rw [List.nil_append, kept, if_neg unmarked, withoutSeparators]

/-- Nothing without a `b` makes a mark when it is put before something else than `b`. -/
theorem IsMark.insert {mark front new back : List Char} (marked : IsMark mark (front ++ back))
    (no_b : 'b' ∉ new) (head : back.head? ≠ some 'b' ∨ new.head? ≠ some '0') :
    IsMark mark (front ++ (new ++ back)) := by
  rcases marked with rfl | ⟨rfl, unmarked⟩
  · exact .inl rfl
  refine .inr ⟨rfl, fun ⟨rest, begins⟩ => unmarked ?_⟩
  rcases front with _ | ⟨x, _ | ⟨y, front⟩⟩
  · rcases new with _ | ⟨z, _ | ⟨w, new⟩⟩
    · exact ⟨rest, begins⟩
    · obtain ⟨rfl, rfl⟩ : '0' = z ∧ 'b' :: rest = back := by simpa using begins
      simp at head
    · obtain ⟨-, rfl, -⟩ : '0' = z ∧ 'b' = w ∧ rest = new ++ back := by simpa using begins
      simp at no_b
  · rcases new with _ | ⟨z, new⟩
    · exact ⟨rest, begins⟩
    · obtain ⟨-, rfl, -⟩ : '0' = x ∧ 'b' = z ∧ rest = new ++ back := by simpa using begins
      simp at no_b
  · obtain ⟨rfl, rfl, -⟩ : '0' = x ∧ 'b' = y ∧ rest = front ++ (new ++ back) := by
      simpa using begins
    exact ⟨front ++ back, rfl⟩

theorem read_congr {text text' : List Char} (same : kept text = kept text') :
    read text = read text' := by
  rw [read, read, ← kept_eq, ← kept_eq, same]

/-- Leading zeros of a numeral do not count. -/
theorem read_of_zeros {text text' : List Char} {n : Nat} (digits : numeral text ≠ [])
    (padded : numeral text' = List.replicate n '0' ++ numeral text) : read text' = read text := by
  have bits : leadingBits text' = List.replicate n '0' ++ leadingBits text := by
    rw [leadingBits, padded, List.takeWhile_append_of_pos]
    · rfl
    · intro c mem
      rw [List.eq_of_mem_replicate mem]
      rfl
  have something (t : List Char) (h : numeral t ≠ []) : kept t ≠ [] := by
    intro nothing
    rw [numeral_eq, nothing] at h
    exact h rfl
  have more : numeral text' ≠ [] := by
    rw [padded]
    simp [digits]
  have value (ds : List Char) : number (List.replicate n '0' ++ ds) = number ds :=
    Numeral.ofDigitChars_zeros 2 n ds
  rw [read_eq, read_eq, bits, padded, value, value, if_neg (something _ digits),
    if_neg (something _ more)]
  simp [digits]

/-- Where the numeral begins with a digit, only a sign is kept of what stands before it. -/
theorem eq_sign_of_takeWhile {lead rest : List Char} {c : Char}
    (first : ∀ x ∈ lead, isBit x = false)
    (leads : (withoutSign (lead ++ c :: rest)).takeWhile isBit ≠ []) :
    lead = [] ∨ lead = ['+'] := by
  rcases lead with _ | ⟨x, _ | ⟨y, lead⟩⟩
  · exact .inl rfl
  · by_cases plus : x = '+'
    · exact .inr (by rw [plus])
    · simp [withoutSign, plus, first x] at leads
  · by_cases plus : x = '+'
    · simp [withoutSign, plus, first y] at leads
    · simp [withoutSign, plus, first x] at leads

/-- Where only separators and a sign stand before a digit, the numeral begins with it. -/
theorem numeral_of_isMark {mark front ds rest : List Char} {d : Char}
    (marked : IsMark mark (front ++ ds))
    (sign : withoutSeparators front = [] ∨ withoutSeparators front = ['+'])
    (digit : isBit d = true) (starts : ds = d :: rest) :
    numeral (mark ++ (front ++ ds)) = withoutSeparators ds := by
  subst starts
  rw [numeral_eq, kept_of_isMark marked, withoutSeparators_append, withoutSeparators_cons digit]
  rcases sign with none | plus
  · rw [none]
    rcases of_decide_eq_true digit with rfl | rfl <;> rfl
  · rw [plus]
    rfl

theorem exists_cons_replicate_append (n : Nat) {c : Char} (digit : isBit c = true)
    (rest : List Char) :
    ∃ d rest', isBit d = true ∧ List.replicate n '0' ++ c :: rest = d :: rest' := by
  cases n with
  | zero => exact ⟨c, rest, digit, rfl⟩
  | succ n => exact ⟨'0', List.replicate n '0' ++ c :: rest, rfl, rfl⟩

theorem read_eq_of_edit {text text' : List Char} (edit : Edit text text') :
    read text' = read text := by
  cases edit with
  | @zeros mark front back c n marked digit first leads =>
    have sign : withoutSeparators front = [] ∨ withoutSeparators front = ['+'] := by
      rw [leadingBits, numeral_eq, kept_of_isMark marked, withoutSeparators_append,
        withoutSeparators_cons digit] at leads
      exact eq_sign_of_takeWhile (fun x mem => first x (List.mem_filter.1 mem).1) leads
    have marked' : IsMark mark (front ++ (List.replicate n '0' ++ c :: back)) := by
      refine marked.insert (fun mem => ?_) (.inl ?_)
      · exact absurd (List.eq_of_mem_replicate mem) (by decide)
      · rcases of_decide_eq_true digit with rfl | rfl <;> simp
    obtain ⟨d, rest, digit', starts⟩ := exists_cons_replicate_append n digit back
    have before := numeral_of_isMark marked sign digit rfl
    have after := numeral_of_isMark marked' sign digit' starts
    rw [withoutSeparators_append, withoutSeparators_zeros, ← before] at after
    refine read_of_zeros ?_ after
    rw [before, withoutSeparators_cons digit]
    exact List.cons_ne_nil _ _
  | @separator mark front back marked =>
    have marked' : IsMark mark (front ++ '_' :: back) :=
      @IsMark.insert mark front ['_'] back marked (by decide) (.inr (by decide))
    refine read_congr ?_
    rw [kept_of_isMark marked, kept_of_isMark marked', withoutSeparators_append,
      withoutSeparators_append]
    rfl

theorem read_eq_of_edits {text text' : List Char} (edits : Relation.EqvGen Edit text text') :
    read text' = read text := by
  induction edits with
  | rel _ _ edit => exact read_eq_of_edit edit
  | refl _ => rfl
  | symm _ _ _ ih => exact ih.symm
  | trans _ _ _ _ _ first second => exact second.trans first

/-! ## What a literal stands for -/

/-- The code and the message of the report on a literal that stands for no byte. -/
def complaint (cause : LiteralError) : String × String :=
  ((Source.Problem.unreadable cause).code, (Source.Problem.unreadable cause).message)

/-- **What a literal stands for.**  If the leading binary digits of the numeral make up more than
255, the literal is too large, whatever stands behind them.  If not, and the numeral has nothing
else, they are its value.  All other literals are bad, and the message tells whether nothing was
kept of them.  Separators behind the mark and zeros before the first digit change nothing. -/
theorem read_verdict (text : List Char) :
    ((read text).mapError complaint =
      if 255 < number (leadingBits text) then
        .error ("load::too_large", "Literal does not fit in a byte")
      else if numeral text ≠ [] ∧ leadingBits text = numeral text then
        .ok (UInt8.ofNat (number (numeral text)))
      else
        .error ("load::bad_lit", "Encountered an invalid literal: " ++
          if kept text = [] then "cannot parse integer from empty string"
          else "invalid digit found in string")) ∧
    ∀ text', Relation.EqvGen Edit text text' → read text' = read text := by
  refine ⟨?_, fun text' => read_eq_of_edits⟩
  rw [read_eq]
  split
  · rfl
  · split
    · rfl
    · split <;> rfl

/-- A literal with a mark and a sign, with a separator between them and zeros behind. -/
theorem read_padded :
    read "0b+10".toList = .ok 2 ∧ read "0b_+00010".toList = .ok 2 := by
  have plain : read "0b+10".toList = .ok 2 := by decide
  have separated : Edit "0b+10".toList "0b_+10".toList :=
    @Edit.separator ['0', 'b'] [] ['+', '1', '0'] (.inl rfl)
  have padded : Edit "0b_+10".toList "0b_+00010".toList :=
    @Edit.zeros ['0', 'b'] ['_', '+'] ['0'] '1' 3 (.inl rfl) rfl (by simp [isBit]) (by decide)
  have edits := Relation.EqvGen.trans _ _ _ (.rel _ _ separated) (.rel _ _ padded)
  exact ⟨plain, ((read_verdict _).2 _ edits).trans plain⟩

/-- A ninth digit that is not binary decides before the number is too large, a tenth does not. -/
example :
    read "111111112".toList = .error .invalidDigit ∧
      read "1111111112".toList = .error .tooLarge := by
  decide

/-! ## The forms that are read -/

/-- Binary digits only, and at least one. -/
def AllBits (ds : List Char) : Prop :=
  ds ≠ [] ∧ ∀ c ∈ ds, isBit c = true

/-- Binary digits and separators, at least one digit. -/
def IsDigits (body : List Char) : Prop :=
  (∀ c ∈ body, isBit c = true ∨ c = '_') ∧ ∃ c ∈ body, isBit c = true

/-- A mark or none, then digits and separators. -/
def Plain (text : List Char) : Prop :=
  ∃ mark body, (mark = [] ∨ mark = ['0', 'b']) ∧ IsDigits body ∧ text = mark ++ body

/-- A mark or none, then a plus sign, then digits and separators.  Separators may stand before the
sign too. -/
def Signed (text : List Char) : Prop :=
  ∃ mark front body, (mark = [] ∨ mark = ['0', 'b']) ∧ (∀ c ∈ front, c = '_') ∧ IsDigits body ∧
    text = mark ++ (front ++ '+' :: body)

theorem isDigits_iff {body : List Char} : IsDigits body ↔ AllBits (withoutSeparators body) := by
  have kept_iff (c : Char) : c ∈ withoutSeparators body ↔ c ∈ body ∧ c ≠ '_' := by
    simp [withoutSeparators]
  have bit_ne {c : Char} (digit : isBit c = true) : c ≠ '_' := by
    rcases of_decide_eq_true digit with rfl | rfl <;> decide
  constructor
  · rintro ⟨only, c, mem, digit⟩
    refine ⟨List.ne_nil_of_mem ((kept_iff c).2 ⟨mem, bit_ne digit⟩), fun d mem => ?_⟩
    obtain ⟨mem, other⟩ := (kept_iff d).1 mem
    exact (only d mem).resolve_right other
  · rintro ⟨something, bits⟩
    refine ⟨fun c mem => ?_, ?_⟩
    · by_cases separator : c = '_'
      · exact .inr separator
      · exact .inl (bits c ((kept_iff c).2 ⟨mem, separator⟩))
    · obtain ⟨c, mem⟩ := List.exists_mem_of_ne_nil _ something
      exact ⟨c, ((kept_iff c).1 mem).1, bits c mem⟩

theorem exists_isMark (text : List Char) : ∃ mark body, IsMark mark body ∧ text = mark ++ body := by
  by_cases marked : ['0', 'b'] <+: text
  · obtain ⟨body, split⟩ := marked
    exact ⟨_, body, .inl rfl, split.symm⟩
  · exact ⟨[], text, .inr ⟨rfl, marked⟩, rfl⟩

/-- No `b` stands behind the mark, so the mark is that of the literal. -/
theorem isMark_of_not_mem {mark body : List Char} (mark_eq : mark = [] ∨ mark = ['0', 'b'])
    (no_b : 'b' ∉ body) : IsMark mark body := by
  rcases mark_eq with rfl | rfl
  · exact .inr ⟨rfl, fun marked => no_b (marked.mem (by simp))⟩
  · exact .inl rfl

theorem IsDigits.not_mem {body : List Char} (digits : IsDigits body) {c : Char}
    (other : isBit c = false ∧ c ≠ '_') : c ∉ body := by
  intro mem
  rcases digits.1 c mem with digit | separator
  · rw [other.1] at digit
    cases digit
  · exact other.2 separator

theorem plain_iff {text : List Char} : Plain text ↔ AllBits (kept text) := by
  constructor
  · rintro ⟨mark, body, mark_eq, digits, rfl⟩
    rw [kept_of_isMark (isMark_of_not_mem mark_eq (digits.not_mem (by decide)))]
    exact isDigits_iff.1 digits
  · intro bits
    obtain ⟨mark, body, marked, rfl⟩ := exists_isMark text
    rw [kept_of_isMark marked] at bits
    exact ⟨mark, body, marked.symm.imp_left (·.1), isDigits_iff.2 bits, rfl⟩

theorem signed_iff {text : List Char} :
    Signed text ↔ ∃ bits, kept text = '+' :: bits ∧ AllBits bits := by
  constructor
  · rintro ⟨mark, front, body, mark_eq, separators, digits, rfl⟩
    have no_b : 'b' ∉ front ++ '+' :: body := by
      simp only [List.mem_append, List.mem_cons, not_or]
      exact ⟨fun mem => absurd (separators _ mem) (by decide), by decide,
        digits.not_mem (by decide)⟩
    refine ⟨withoutSeparators body, ?_, isDigits_iff.1 digits⟩
    have nothing : withoutSeparators front = [] := by
      simpa [withoutSeparators] using separators
    rw [kept_of_isMark (isMark_of_not_mem mark_eq no_b), withoutSeparators_append, nothing]
    rfl
  · rintro ⟨bits, kept_eq, all⟩
    obtain ⟨mark, body, marked, rfl⟩ := exists_isMark text
    rw [kept_of_isMark marked] at kept_eq
    obtain ⟨front, rest, rfl, separators, -, rfl⟩ := List.filter_eq_cons_iff.1 kept_eq
    exact ⟨mark, front, rest, marked.symm.imp_left (·.1),
      by simpa using separators, isDigits_iff.2 all, rfl⟩

theorem allBits_withoutSign {ds : List Char} :
    AllBits (withoutSign ds) ↔ AllBits ds ∨ ∃ bits, ds = '+' :: bits ∧ AllBits bits := by
  have plus : isBit '+' = false := rfl
  rcases ds with _ | ⟨c, _ | ⟨d, rest⟩⟩
  · simp [withoutSign, AllBits]
  · simp [withoutSign, AllBits]
  · by_cases sign : c = '+'
    · simp [withoutSign, AllBits, sign, plus]
    · simp [withoutSign, AllBits, sign]

/-- A literal is read if and only if it has one of the two forms and its number fits in a byte. -/
theorem exists_read_iff {text : List Char} :
    (∃ byte, read text = .ok byte) ↔ (Plain text ∨ Signed text) ∧ number (numeral text) ≤ 255 := by
  have forms : Plain text ∨ Signed text ↔ numeral text ≠ [] ∧ leadingBits text = numeral text := by
    rw [plain_iff, signed_iff, ← allBits_withoutSign, ← numeral_eq, leadingBits,
      List.takeWhile_eq_self_iff]
    rfl
  rw [forms, read_eq]
  split
  · next above =>
    simp only [reduceCtorEq, exists_false, false_iff]
    rintro ⟨⟨-, all⟩, small⟩
    rw [all] at above
    omega
  · next small =>
    split
    · next whole =>
      rw [whole.2] at small
      exact ⟨fun _ => ⟨whole, by omega⟩, fun _ => ⟨_, rfl⟩⟩
    · next other => simp [other]

end Literal

namespace Source

open Literal

theorem Problem.code_mem (problem : Problem) :
    some problem.code ∈ [some "load::too_long", some "load::too_large", some "load::bad_lit"] := by
  cases problem with
  | tooLong => decide
  | unreadable cause => cases cause <;> decide

/-- **The literals of programs.**  Every literal of a text that is a program has the plain form or
the signed one.  A text with any other literal is no program, and there is a report on it. -/
theorem parse_forms (s : Source) :
    (∀ program, s.parse = .ok program →
      ∀ literal ∈ significant s.text.toList, Plain literal ∨ Signed literal) ∧
    ∀ literal ∈ significant s.text.toList, ¬ Plain literal → ¬ Signed literal →
      ∃ e, s.parse = .error e ∧ (e.report s.name).code ∈
        [some "load::too_long", some "load::too_large", some "load::bad_lit"] := by
  have forms {program : List UInt8} (parsed : s.parse = .ok program) :
      ∀ literal ∈ significant s.text.toList, Plain literal ∨ Signed literal := by
    intro literal mem
    obtain ⟨-, values⟩ := parse_eq_ok_iff.1 parsed
    exact (exists_read_iff.1 (exists_forall₂_iff.1 ⟨program, values⟩ literal mem)).1
  refine ⟨fun program => forms, fun literal mem unplain unsigned => ?_⟩
  cases parsed : s.parse with
  | ok program => exact absurd (forms parsed literal mem) (not_or.2 ⟨unplain, unsigned⟩)
  | error e => exact ⟨e, rfl, e.problem.code_mem⟩

/-- A program with literals of both forms, and a text with a minus sign. -/
theorem parse_forms_signs :
    ((Source.mk "two.ls8" "0b_1\n+10").parse = .ok [1, 2] ∧
      ∀ literal ∈ ["0b_1".toList, "+10".toList], Plain literal ∨ Signed literal) ∧
    ∃ e, (Source.mk "minus.ls8" "1\n-1").parse = .error e ∧ (e.report "minus.ls8").code ∈
      [some "load::too_long", some "load::too_large", some "load::bad_lit"] := by
  have parsed : (Source.mk "two.ls8" "0b_1\n+10").parse = .ok [1, 2] := by decide
  have listed : significant "0b_1\n+10".toList = ["0b_1".toList, "+10".toList] := by decide
  have kept_minus : kept ['-', '1'] = ['-', '1'] := by decide
  have unplain : ¬ Plain ['-', '1'] := by
    intro plain
    have bit : isBit '-' = true := (plain_iff.1 plain).2 '-' (by decide)
    cases bit
  have unsigned : ¬ Signed ['-', '1'] := by
    intro signed
    obtain ⟨bits, kept_plus, -⟩ := signed_iff.1 signed
    rw [kept_minus] at kept_plus
    cases kept_plus
  refine ⟨⟨parsed, ?_⟩, ?_⟩
  · rw [← listed]
    exact (parse_forms ⟨"two.ls8", "0b_1\n+10"⟩).1 _ parsed
  · exact (parse_forms ⟨"minus.ls8", "1\n-1"⟩).2 ['-', '1'] (by decide) unplain unsigned

/-- A plus sign is read, though the plain form has none. -/
theorem parse_plus_sign :
    (Source.mk "plus.ls8" "+1\n").parse = .ok [1] ∧
      significant "+1\n".toList = [['+', '1']] ∧ ¬ Plain ['+', '1'] := by
  refine ⟨by decide, by decide, fun plain => ?_⟩
  have bits := (plain_iff.1 plain).2 '+' (by decide)
  cases bits

end Source

end EightBit
