/-
# EightBit.Proofs.Source.Composition -- texts one after the other

A text that is empty or ends with a line feed leaves the lines of a text behind it alone, so the
literals of the two together are those of the first and those of the second, moved behind the first
(`Source.literals_append`).  They are read from left to right into the room that is left, and so is
the second text: into the room that the first one leaves (`Source.parse_append_eq`).

`Source.load_append` says what becomes of the two without speaking of the room.  A report on the
first text is the report on both.  Otherwise the second text decides, and its literals compete with
the end of memory: its program is added if there is room, its first literal that cannot be read is
reported if memory reaches that far, and else its first literal behind the end of memory.
-/
import EightBit.Proofs.Source.FirstError
import EightBit.Proofs.Source.Meaning

namespace EightBit

set_option autoImplicit false

/-! ## Lines of texts one after the other -/

namespace Line

theorem StartsBehind.of_append_feed {line rest : List Char}
    (starts : StartsBehind (line ++ '\n' :: rest)) : StartsBehind rest := by
  rcases starts with nothing | ⟨front, split⟩
  · simp at nothing
  · rcases List.eq_nil_or_concat' rest with rfl | ⟨init, c, rfl⟩
    · exact .inl rfl
    · rw [← List.cons_append, ← List.append_assoc] at split
      obtain ⟨-, last⟩ := List.append_inj' split rfl
      exact .inr ⟨init, by rw [last]⟩

theorem lines_append_of_starts {front : List Char} (rest : List Char)
    (starts : StartsBehind front) : lines (front ++ rest) = lines front ++ lines rest := by
  induction front using text_induction with
  | last line whole =>
    -- what stands behind the last feed is empty
    rcases starts with rfl | ⟨front, rfl⟩
    · rfl
    · simp at whole
  | more line later whole ih =>
    rw [List.append_assoc, List.cons_append, lines_append whole, lines_append whole,
      ih starts.of_append_feed, List.cons_append]

end Line

namespace Literal

open Line

/-- A literal so many bytes further on. -/
def moved (bytes : Nat) (l : Literal) : Literal :=
  { l with offset := l.offset + bytes }

theorem ofLine?_add (start bytes : Nat) (line : List Char) :
    ofLine? (start + bytes) line = (ofLine? start line).map (moved bytes) := by
  rw [ofLine?_eq, ofLine?_eq]
  split
  · rfl
  · simp only [Option.map_some, moved]
    congr 2
    omega

theorem ofLines_add (start bytes : Nat) (lines : List (List Char)) :
    ofLines (start + bytes) lines = (ofLines start lines).map (moved bytes) := by
  induction lines generalizing start with
  | nil => rfl
  | cons line rest ih =>
    have next : start + bytes + byteLength line = start + byteLength line + bytes := by omega
    rw [ofLines, ofLines, ofLine?_add, next, ih, List.map_append]
    cases ofLine? start line <;> rfl

theorem ofLines_append (start : Nat) (a b : List (List Char)) :
    ofLines start (a ++ b) = ofLines start a ++ ofLines (start + byteLength a.flatten) b := by
  induction a generalizing start with
  | nil => rfl
  | cons line rest ih =>
    rw [List.cons_append, ofLines, ofLines, ih, List.flatten_cons, byteLength_append,
      List.append_assoc, Nat.add_assoc]

/-- The literals of a text behind another one are its own, moved behind the other. -/
theorem ofLines_lines_append_of_starts {front : List Char} (rest : List Char)
    (starts : StartsBehind front) (start : Nat) :
    ofLines start (lines (front ++ rest)) =
      ofLines start (lines front) ++
        (ofLines start (lines rest)).map (moved (byteLength front)) := by
  rw [lines_append_of_starts rest starts, ofLines_append, flatten_lines, ofLines_add]

end Literal

namespace Source

open Line Literal

theorem literals_append (name a b : String) (starts : StartsBehind a.toList) :
    literals ⟨name, a ++ b⟩ = literals ⟨name, a⟩ ++
      (literals ⟨name, b⟩).map (moved a.utf8ByteSize) := by
  have size : byteLength a.toList = a.utf8ByteSize := by
    rw [byteLength_eq_utf8ByteSize, String.ofList_toList]
  rw [← size]
  simp only [literals, String.toList_append]
  exact ofLines_lines_append_of_starts b.toList starts 0

/-! ## Assembling lists of literals one after the other -/

/-- An error about a literal so many bytes further on. -/
def Error.moved (bytes : Nat) (e : Error) : Error :=
  { e with literal := e.literal.moved bytes }

/-- The literals behind others have the room that is left. -/
theorem assemble_append (room : Nat) (a b : List Literal) :
    assemble room (a ++ b) =
      (assemble room a).bind fun p => (assemble (room - p.length) b).map (p ++ ·) := by
  induction a generalizing room with
  | nil =>
    rw [assemble_nil, List.nil_append]
    show assemble room b = (assemble room b).map ([] ++ ·)
    cases assemble room b <;> rfl
  | cons l rest ih =>
    cases room with
    | zero => rfl
    | succ room =>
      cases value : l.value with
      | error cause =>
        rw [List.cons_append, assemble_cons_of_error room value, assemble_cons_of_error room value]
        rfl
      | ok byte =>
        rw [List.cons_append, assemble_cons_of_ok room value, assemble_cons_of_ok room value, ih]
        cases assemble room rest with
        | error e => rfl
        | ok p =>
          show ((assemble (room - p.length) b).map (p ++ ·)).map (byte :: ·) =
            (assemble (room + 1 - (p.length + 1)) b).map (byte :: p ++ ·)
          rw [Nat.add_sub_add_right]
          cases assemble (room - p.length) b <;> rfl

theorem assemble_map_moved (room bytes : Nat) (ls : List Literal) :
    assemble room (ls.map (moved bytes)) = (assemble room ls).mapError (Error.moved bytes) := by
  induction ls generalizing room with
  | nil =>
    rw [List.map_nil, assemble_nil]
    rfl
  | cons l rest ih =>
    cases room with
    | zero => rfl
    | succ room =>
      have same : (moved bytes l).value = l.value := rfl
      cases value : l.value with
      | error cause =>
        rw [List.map_cons, assemble_cons_of_error room value,
          assemble_cons_of_error room (same.trans value)]
        rfl
      | ok byte =>
        rw [List.map_cons, assemble_cons_of_ok room value,
          assemble_cons_of_ok room (same.trans value), ih]
        cases assemble room rest <;> rfl

/-- **A text behind another** is read with the room that the other leaves, and its errors
are about literals so many bytes further on. -/
theorem parse_append_eq (name a b : String) (starts : StartsBehind a.toList) :
    (Source.mk name (a ++ b)).parse = (Source.mk name a).parse.bind fun p =>
      ((assemble (Memory.size - p.length) (Source.mk name b).literals).mapError
        (Error.moved a.utf8ByteSize)).map (p ++ ·) := by
  simp only [parse, literals_append name a b starts, assemble_append, assemble_map_moved]

/-! ## Places of literals -/

/-- `l` is the literal of a line, and the lines before it have the literals `earlier`. -/
def HasLiteral (t : Source) (earlier : List (List Char)) (l : Literal) : Prop :=
  ∃ before line after, IsLine t.text.toList before line after ∧ significant before = earlier ∧
    ofLine? (byteLength before) line = some l

/-- The `k`-th literal of a text, counted from one, is its first that cannot be read. -/
def FirstUnreadable (t : Source) (k : Nat) (l : Literal) (cause : LiteralError) : Prop :=
  ∃ earlier, t.HasLiteral earlier l ∧ earlier.length + 1 = k ∧
    (∀ text ∈ earlier, ∃ byte, Literal.read text = .ok byte) ∧ l.value = .error cause

theorem exists_literals_of_isLine {text before line after : List Char} {l : Literal}
    (place : IsLine text before line after) (found : ofLine? (byteLength before) line = some l) :
    ∃ later, ofLines 0 (lines text) = ofLines 0 (lines before) ++ l :: later := by
  rw [place.text_eq, List.append_assoc, lines_append_of_starts _ place.starts, ofLines_append,
    flatten_lines, Nat.zero_add]
  rcases place.ends with rfl | ⟨back, rfl⟩
  · exact ⟨[], by rw [List.append_nil, ofLines_lines_of_not_mem place.whole, found]; rfl⟩
  · exact ⟨_, by rw [ofLines_lines_append place.whole, found]; rfl⟩

theorem hasLiteral_iff {t : Source} {earlier : List (List Char)} {l : Literal} :
    t.HasLiteral earlier l ↔
      ∃ front back, t.literals = front ++ l :: back ∧ front.map (·.text) = earlier := by
  constructor
  · rintro ⟨before, line, after, place, rfl, found⟩
    obtain ⟨later, split⟩ := exists_literals_of_isLine place found
    exact ⟨_, later, split, map_text_ofLines before 0⟩
  · rintro ⟨front, back, split, rfl⟩
    obtain ⟨before, line, after, place, texts, found⟩ := exists_place _ split
    rw [Nat.zero_add] at found
    exact ⟨before, line, after, place, texts.symm, found⟩

theorem firstUnreadable_iff {t : Source} {k : Nat} {l : Literal} {cause : LiteralError} :
    t.FirstUnreadable k l cause ↔
      ∃ front back, t.literals = front ++ l :: back ∧ front.length + 1 = k ∧
        (∀ l' ∈ front, ∃ byte, l'.value = .ok byte) ∧ l.value = .error cause := by
  constructor
  · rintro ⟨earlier, place, count, readable, refused⟩
    obtain ⟨front, back, split, rfl⟩ := hasLiteral_iff.1 place
    rw [List.length_map] at count
    exact ⟨front, back, split, count, fun _ mem => readable _ (List.mem_map_of_mem mem), refused⟩
  · rintro ⟨front, back, split, count, readable, refused⟩
    refine ⟨front.map (·.text), hasLiteral_iff.2 ⟨front, back, split, rfl⟩, ?_, ?_, refused⟩
    · rw [List.length_map, count]
    · exact List.forall_mem_map.2 readable

/-! ## What is left of the room -/

/-- A program that fits in less room is the same. -/
theorem assemble_of_parse {t : Source} {q : List UInt8} {room : Nat} (parsed : t.parse = .ok q)
    (fits : q.length ≤ room) : assemble room t.literals = .ok q := by
  obtain ⟨-, values⟩ := assemble_eq_ok_iff.1 parsed
  exact assemble_eq_ok_iff.2 ⟨values.length_eq ▸ fits, values⟩

theorem length_le_of_assemble {room : Nat} {ls : List Literal} {q : List UInt8}
    (done : assemble room ls = .ok q) : q.length ≤ room := by
  obtain ⟨few, values⟩ := assemble_eq_ok_iff.1 done
  exact values.length_eq ▸ few

/-- The first literal that cannot be read is in the way if the room reaches as far as it. -/
theorem assemble_of_firstUnreadable {t : Source} {k : Nat} {l : Literal} {cause : LiteralError}
    {room : Nat} (first : t.FirstUnreadable k l cause) (fits : k ≤ room) :
    assemble room t.literals = .error ⟨.unreadable cause, l⟩ := by
  obtain ⟨front, back, split, rfl, readable, refused⟩ := firstUnreadable_iff.1 first
  obtain ⟨q, values⟩ := exists_forall₂_iff.2 readable
  have few : front.length ≤ room := by omega
  have done : assemble room front = .ok q := assemble_eq_ok_iff.2 ⟨few, values⟩
  obtain ⟨left, left_eq⟩ : ∃ left, room - q.length = left + 1 :=
    Nat.exists_eq_succ_of_ne_zero (by rw [← values.length_eq]; omega)
  rw [split, assemble_append, done]
  show (assemble (room - q.length) (l :: back)).map (q ++ ·) = _
  rw [left_eq, assemble_cons_of_error _ refused]
  rfl

/-- When a text neither fits in the room nor has a literal in it that cannot be read, its first
literal behind the room is in the way. -/
theorem assemble_of_neither {t : Source} {room : Nat} (small : room ≤ Memory.size)
    (long : ¬ ∃ q, t.parse = .ok q ∧ q.length ≤ room)
    (readable : ¬ ∃ k l cause, t.FirstUnreadable k l cause ∧ k ≤ room) :
    ∃ earlier l, t.HasLiteral earlier l ∧ earlier.length = room ∧
      assemble room t.literals = .error ⟨.tooLong, l⟩ := by
  cases assembled : assemble room t.literals with
  | ok q =>
    obtain ⟨few, values⟩ := assemble_eq_ok_iff.1 assembled
    have parsed : t.parse = .ok q := assemble_eq_ok_iff.2 ⟨Nat.le_trans few small, values⟩
    exact absurd ⟨q, parsed, length_le_of_assemble assembled⟩ long
  | error e =>
    obtain ⟨problem, l⟩ := e
    obtain ⟨front, back, split, before, full | ⟨room_left, cause, refused, -⟩⟩ :=
      assemble_eq_error assembled
    · obtain ⟨count, rfl⟩ := full
      refine ⟨front.map (·.text), l, hasLiteral_iff.2 ⟨front, back, split, rfl⟩, ?_, rfl⟩
      rw [List.length_map, count]
    · have first : t.FirstUnreadable (front.length + 1) l cause :=
        firstUnreadable_iff.2 ⟨front, back, split, rfl, before, refused⟩
      exact absurd ⟨_, l, cause, first, room_left⟩ readable

/-! ## Texts one after the other -/

/-- What a text is loaded as: its program, or the report on it. -/
def load (s : Source) : Except Report (List UInt8) :=
  s.parse.mapError (·.report s.name)

end Source

/-- A report on places so many bytes further on. -/
def Report.moved (bytes : Nat) (r : Report) : Report :=
  { r with labels := r.labels.map fun l => { l with offset := l.offset + bytes } }

namespace Source

open Line Literal

theorem load_eq_ok_iff {s : Source} {p : List UInt8} : s.load = .ok p ↔ s.parse = .ok p :=
  Machine.mapError_eq_ok

/-- Behind a program, the other text is loaded into the room that is left. -/
theorem load_append_of_ok {name a b : String} {p : List UInt8} (starts : StartsBehind a.toList)
    (loaded : (Source.mk name a).load = .ok p) :
    (Source.mk name (a ++ b)).load =
      ((assemble (Memory.size - p.length) (Source.mk name b).literals).mapError fun e =>
        (e.report name).moved a.utf8ByteSize).map (p ++ ·) := by
  rw [load, parse_append_eq name a b starts, load_eq_ok_iff.1 loaded]
  show (((assemble _ _).mapError _).map _).mapError _ = _
  cases assemble (Memory.size - p.length) (Source.mk name b).literals <;> rfl

/-- **A text behind another.**  A report on the first text is the report on both.  Behind a text
that is a program, the other one's program is added if memory has room for both.  Its first literal
that cannot be read is reported, at its place in both, if memory reaches as far as this literal.  In
any other case the literal for the first byte past the end of memory is reported. -/
theorem load_append (name a b : String) (starts : StartsBehind a.toList) :
    let s : Source := ⟨name, a⟩
    let t : Source := ⟨name, b⟩
    let both : Source := ⟨name, a ++ b⟩
    (∀ r, s.load = .error r → both.load = .error r) ∧
    ∀ p, s.load = .ok p →
      (∀ q, t.load = .ok q → p.length + q.length ≤ 256 → both.load = .ok (p ++ q)) ∧
      (∀ k l cause, t.FirstUnreadable k l cause → p.length + k ≤ 256 →
        both.load = .error ((Error.report ⟨.unreadable cause, l⟩ name).moved a.utf8ByteSize)) ∧
      ((¬ ∃ q, t.load = .ok q ∧ p.length + q.length ≤ 256) →
        (¬ ∃ k l cause, t.FirstUnreadable k l cause ∧ p.length + k ≤ 256) →
        ∃ earlier l, t.HasLiteral earlier l ∧ p.length + earlier.length = 256 ∧
          both.load = .error ((Error.report ⟨.tooLong, l⟩ name).moved a.utf8ByteSize)) := by
  intro s t both
  constructor
  · intro r failed
    obtain ⟨e, parsed, rfl⟩ := Machine.mapError_eq_error.1 failed
    show both.parse.mapError _ = _
    rw [parse_append_eq name a b starts, parsed]
    rfl
  · intro p loaded
    have fits : p.length ≤ 256 := length_le_of_assemble (load_eq_ok_iff.1 loaded)
    have behind := load_append_of_ok (b := b) starts loaded
    refine ⟨fun q loaded_t room => ?_, fun k l cause first room => ?_, fun long readable => ?_⟩
    · have few : q.length ≤ Memory.size - p.length := Nat.le_sub_of_add_le' room
      rw [behind, assemble_of_parse (load_eq_ok_iff.1 loaded_t) few]
      rfl
    · have near : k ≤ Memory.size - p.length := Nat.le_sub_of_add_le' room
      rw [behind, assemble_of_firstUnreadable first near]
      rfl
    · -- the two cases that are left out, seen from the room that is left
      have long' : ¬ ∃ q, t.parse = .ok q ∧ q.length ≤ 256 - p.length := by
        rintro ⟨q, parsed, few⟩
        exact long ⟨q, load_eq_ok_iff.2 parsed, by omega⟩
      have readable' : ¬ ∃ k l cause, t.FirstUnreadable k l cause ∧ k ≤ 256 - p.length := by
        rintro ⟨k, l, cause, first, near⟩
        exact readable ⟨k, l, cause, first, by omega⟩
      obtain ⟨earlier, l, place, count, full⟩ :=
        assemble_of_neither (Nat.sub_le 256 p.length) long' readable'
      refine ⟨earlier, l, place, by omega, ?_⟩
      rw [behind]
      show ((assemble (256 - p.length) t.literals).mapError _).map _ = _
      rw [full]
      rfl

/-- A bad literal two lines behind another text, and a literal behind a text that fills memory. -/
theorem load_append_places :
    let one : String := "1\n"
    let full : String := String.ofList (List.replicate 256 ['1', '\n']).flatten
    (∃ r, (Source.mk "a.ls8" (one ++ "10\n 2")).load = .error r ∧
      r.code = some "load::bad_lit" ∧ r.labels = [⟨6, 1, "not a binary literal"⟩]) ∧
    ∃ r, (Source.mk "b.ls8" (full ++ "# more\n10")).load = .error r ∧
      r.code = some "load::too_long" ∧
        r.labels = [⟨519, 2, "first byte past the end of memory"⟩] := by
  intro one full
  constructor
  · have loaded : (Source.mk "a.ls8" one).load = .ok [1] := by
      simp only [one]
      exact load_eq_ok_iff.2 (by decide)
    have first : (Source.mk "a.ls8" "10\n 2").FirstUnreadable 2 ⟨4, ['2']⟩ .invalidDigit :=
      firstUnreadable_iff.2 ⟨[⟨0, ['1', '0']⟩], [], by decide, rfl,
        List.forall_mem_singleton.2 ⟨2, by decide⟩, by decide⟩
    have starts : StartsBehind one.toList := .inr ⟨['1'], by simp only [one]; decide⟩
    exact ⟨_, ((load_append _ one _ starts).2 _ loaded).2.1 _ _ _ first (by decide), rfl, rfl⟩
  · have text : full.toList = (List.replicate 256 ['1', '\n']).flatten := String.toList_ofList
    have size : full.utf8ByteSize = 512 := by
      rw [← String.ofList_toList (s := full), text, ← byteLength_eq_utf8ByteSize]
      decide +kernel
    have loaded : (Source.mk "b.ls8" full).load = .ok (List.replicate 256 1) := by
      refine load_eq_ok_iff.2 ?_
      simp only [parse, literals, text]
      decide +kernel
    have starts : StartsBehind full.toList := by
      refine .inr ⟨(List.replicate 255 ['1', '\n']).flatten ++ ['1'], ?_⟩
      rw [text]
      decide +kernel
    have parsed : (Source.mk "b.ls8" "# more\n10").parse = .ok [2] := by decide
    have read : (Source.mk "b.ls8" "# more\n10").literals = [⟨7, ['1', '0']⟩] := by decide
    have long : ¬ ∃ q, (Source.mk "b.ls8" "# more\n10").load = .ok q ∧
        (List.replicate 256 (1 : UInt8)).length + q.length ≤ 256 := by
      rintro ⟨q, loaded_more, few⟩
      rw [load_eq_ok_iff, parsed] at loaded_more
      cases loaded_more
      rw [List.length_replicate] at few
      exact absurd few (by decide)
    have readable : ¬ ∃ k l cause, (Source.mk "b.ls8" "# more\n10").FirstUnreadable k l cause ∧
        (List.replicate 256 (1 : UInt8)).length + k ≤ 256 := by
      rintro ⟨k, l, cause, ⟨earlier, -, count, -⟩, few⟩
      rw [List.length_replicate] at few
      omega
    obtain ⟨earlier, l, place, -, failed⟩ :=
      ((load_append _ full _ starts).2 _ loaded).2.2 long readable
    obtain ⟨front, back, split, -⟩ := hasLiteral_iff.1 place
    obtain rfl : l = ⟨7, ['1', '0']⟩ := by
      rw [← List.mem_singleton, ← read, split]
      simp
    refine ⟨_, failed, rfl, ?_⟩
    rw [size]
    rfl

end Source

end EightBit
