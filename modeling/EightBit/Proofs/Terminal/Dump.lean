/-
# EightBit.Proofs.Terminal.Dump -- a register dump tells all it shows

A dump shows the registers, the program counter and the flag register, and nothing else of a
machine.  Two machines that differ in one of these have different dumps, on every display, although
numerals are of different widths and the program counter may need more digits than there is room for.

A dump on a full display is first read without its styles.  Its pieces are painted one by one, but
no piece leaves an instruction open, so stripping takes all instructions away and leaves the bare
box, whether there is colour or not (`strip_stderr_registers`).  A bare dump is then read by its
words.  All that is shown stands between blanks, so the words are the labels and the numerals,
whatever their widths (`spells_bare`), and numerals are read back.
-/
import EightBit.Proofs.Terminal.Painting
import EightBit.Proofs.TraceLine
import EightBit.Terminal.RegisterDump
import EightBit.Text.Words
import Mathlib.Data.List.Forall2

namespace EightBit

set_option autoImplicit false

/-! ## Texts without their styles -/

namespace Escape

/-- Stripping leaves `bare` of the text, whatever stands behind it. -/
def StripsTo (text bare : String) : Prop :=
  ∀ rest, strip (text ++ rest) = bare ++ strip rest

theorem stripFrom_false_append {text : List Char} (h : esc ∉ text) (rest : List Char) :
    stripFrom false (text ++ rest) = text ++ stripFrom false rest := by
  induction text with
  | nil => rfl
  | cons c text ih =>
    rw [List.mem_cons, not_or] at h
    simp [stripFrom, Ne.symm h.1, ih h.2]

namespace StripsTo

variable {a b a' b' code : String}

theorem append (ha : StripsTo a a') (hb : StripsTo b b') : StripsTo (a ++ b) (a' ++ b') := by
  intro rest
  rw [String.append_assoc, ha, hb, String.append_assoc]

theorem strip_eq (h : StripsTo a a') : strip a = a' := by
  have alone := h ""
  rwa [String.append_empty, show strip "" = "" by decide, String.append_empty] at alone

theorem of_esc_not_mem (h : esc ∉ a.toList) : StripsTo a a := by
  intro rest
  rw [strip, String.toList_append, stripFrom_false_append h, String.ofList_append,
    String.ofList_toList]
  rfl

theorem of_visible (h : Visible a) : StripsTo a a :=
  of_esc_not_mem (Visible.not_mem h (by decide))

theorem start (plain : 'm' ∉ code.toList) : StripsTo (String.ofList (start code)) "" := by
  intro rest
  rw [strip, String.toList_append, String.toList_ofList, stripFrom_start_append plain,
    String.empty_append]
  rfl

theorem styled (plain : 'm' ∉ code.toList) (h : StripsTo a a') :
    StripsTo (RegisterDump.styled code a) a' := by
  have reset : StripsTo (String.ofList reset) "" := start (by decide)
  have closed := ((start plain).append h).append reset
  rwa [String.empty_append, String.append_empty] at closed

/-- A label in a style, between texts without any. -/
theorem label (plain : 'm' ∉ code.toList) (ha : Visible a) (h : Visible b) (hb : Visible b') :
    StripsTo (a ++ RegisterDump.styled code b ++ b') (a ++ b ++ b') :=
  ((of_visible ha).append (styled plain (of_visible h))).append (of_visible hb)

theorem line (h : StripsTo a a') : StripsTo (a ++ "\n") (a' ++ "\n") :=
  h.append (of_esc_not_mem (by decide))

theorem paint (d : Display) (c : Colour) (h : StripsTo a a') : StripsTo (d.paint c a) a' := by
  intro rest
  rw [Display.paint]
  split
  · rw [strip_paint_append (Display.plain_code c), h.strip_eq]
  · exact h rest

theorem join {texts bare : List String} (each : List.Forall₂ StripsTo texts bare) :
    StripsTo (String.join texts) (String.join bare) := by
  induction each with
  | nil => exact of_esc_not_mem (by decide)
  | cons h _ ih =>
    rw [String.join_cons, String.join_cons]
    exact h.append ih

theorem map_strip_eq {texts bare : List String} (each : List.Forall₂ StripsTo texts bare) :
    texts.map strip = bare := by
  induction each with
  | nil => rfl
  | cons h _ ih => rw [List.map_cons, h.strip_eq, ih]

end StripsTo

end Escape

theorem Display.stderr_printAll_full {d : Display} (full : d.minimal = false) (wanted : Wanted)
    (texts : List String) :
    (d.printAll (.diagnostic wanted) texts).stderr = String.join (texts.map (d.paint .blue)) := by
  induction texts with
  | nil => rfl
  | cons text rest ih =>
    rw [printAll_cons, print_full full, Console.stderr_append, ih, List.map_cons, String.join_cons]

namespace RegisterDump

open Numeral Escape

/-! ## The bare dump -/

/-- The figures of a register: in hexadecimal, decimal and binary. -/
def figures (value : UInt8) : String :=
  "0x" ++ hex 2 value.toNat ++ "  " ++ alignRight 4 (decimal value.toNat) ++ "  "
    ++ binary 8 value.toNat

def bareTop : List String :=
  ["┌─────────────────────────┐" ++ "\n", "│     hex  uint  binary   │" ++ "\n"]

def bareRow (value : UInt8) (i : Nat) : List String :=
  ["│", " " ++ ("R" ++ decimal i) ++ "  ", figures value, " │" ++ "\n"]

def bareBottom (m : Machine) : List String :=
  ["│", " " ++ "PC" ++ "  0x" ++ hex 2 m.pc, "      " ++ "FL" ++ "  " ++ binary 3 m.flag.bits.toNat,
    " │" ++ "\n", "└─────────────────────────┘" ++ "\n"]

/-- The pieces of a dump without their styles.  Those on a minimal display have none. -/
def bare (minimal : Bool) (m : Machine) : List String :=
  if minimal then plainPieces m
  else bareTop ++ (numbered m).flatMap (fun (value, i) => bareRow value i) ++ bareBottom m

theorem visible_register (i : Nat) : Visible ("R" ++ decimal i) :=
  Visible.append (by decide) (visible_decimal i)

theorem visible_figures (value : UInt8) : Visible (figures value) := by
  have mark : Visible "0x" := by decide
  have gap : Visible "  " := by decide
  exact ((((mark.append (visible_hex 2 _)).append gap).append
    (visible_alignRight 4 (visible_decimal _))).append gap).append (visible_binary 8 _)

theorem stripsTo_leftSide : StripsTo leftSide "│" :=
  .styled (by decide) (.of_visible (by decide))

theorem stripsTo_rightSide : StripsTo rightSide (" │" ++ "\n") :=
  .line ((StripsTo.of_visible (by decide)).append (.styled (by decide) (.of_visible (by decide))))

theorem stripsTo_top : List.Forall₂ StripsTo top bareTop := by
  have edge : StripsTo (dim "┌─────────────────────────┐") "┌─────────────────────────┐" :=
    .styled (by decide) (.of_visible (by decide +kernel))
  have dimmed : StripsTo (String.ofList (start "2")) "" := .start (by decide)
  have side : StripsTo "│     " "│     " := .of_visible (by decide)
  have headings : StripsTo (italic "hex  uint  binary") "hex  uint  binary" :=
    .styled (by decide) (.of_visible (by decide))
  have side' : StripsTo (dim "   │") "   │" := .styled (by decide) (.of_visible (by decide))
  exact .cons edge.line (.cons (((dimmed.append side).append headings).append side').line .nil)

theorem stripsTo_row (value : UInt8) (i : Nat) :
    List.Forall₂ StripsTo (row value i) (bareRow value i) :=
  .cons stripsTo_leftSide
    (.cons (.label (by decide) (by decide) (visible_register i) (by decide))
      (.cons (.of_visible (visible_figures value)) (.cons stripsTo_rightSide .nil)))

theorem stripsTo_bottom (m : Machine) : List.Forall₂ StripsTo (bottom m) (bareBottom m) := by
  have counter : StripsTo (" " ++ bold "PC" ++ "  0x" ++ hex 2 m.pc)
      (" " ++ "PC" ++ "  0x" ++ hex 2 m.pc) :=
    (StripsTo.label (by decide) (by decide) (by decide) (by decide)).append
      (.of_visible (visible_hex 2 _))
  have flag : StripsTo ("      " ++ bold "FL" ++ "  " ++ binary 3 m.flag.bits.toNat)
      ("      " ++ "FL" ++ "  " ++ binary 3 m.flag.bits.toNat) :=
    (StripsTo.label (by decide) (by decide) (by decide) (by decide)).append
      (.of_visible (visible_binary 3 _))
  have edge : StripsTo (dim "└─────────────────────────┘") "└─────────────────────────┘" :=
    .styled (by decide) (.of_visible (by decide +kernel))
  exact .cons stripsTo_leftSide
    (.cons counter (.cons flag (.cons stripsTo_rightSide (.cons edge.line .nil))))

theorem stripsTo_boxPieces (m : Machine) :
    List.Forall₂ StripsTo (boxPieces m) (bare false m) := by
  refine List.rel_append (List.rel_append stripsTo_top ?_) (stripsTo_bottom m)
  refine List.rel_flatMap (R := Eq) (List.forall₂_refl _) ?_
  rintro ⟨value, i⟩ _ rfl
  exact stripsTo_row value i

theorem stripsTo_plainPieces (m : Machine) :
    List.Forall₂ StripsTo (plainPieces m) (bare true m) := by
  have register (value : UInt8) (i : Nat) :
      Visible ("R" ++ decimal i ++ " " ++ decimal value.toNat) :=
    ((visible_register i).append (by decide)).append (visible_decimal _)
  have counter : Visible ("PC " ++ decimal m.pc) := Visible.append (by decide) (visible_decimal _)
  have flag : Visible ("FL " ++ binary 3 m.flag.bits.toNat) :=
    Visible.append (by decide) (visible_binary 3 _)
  simp only [bare, if_true, plainPieces, List.forall₂_same, List.forall_mem_append,
    List.forall_mem_map, List.forall_mem_cons]
  exact ⟨fun _ _ => .line (.of_visible (register _ _)), .line (.of_visible counter),
    .line (.of_visible flag), nofun⟩

/-- A dump is stripped to the bare one, on a full display with colour and without. -/
theorem strip_stderr_registers (d : Display) (m : Machine) :
    strip (d.registers (.diagnostic .always) m).stderr = String.join (bare d.minimal m) := by
  cases kind : d.minimal with
  | true =>
    have same : List.Forall₂ StripsTo (bare true m) (bare true m) := stripsTo_plainPieces m
    rw [Display.registers, Display.stderr_printAll_minimal kind, kind, pieces, if_pos rfl,
      StripsTo.map_strip_eq (stripsTo_plainPieces m)]
    exact (StripsTo.join same).strip_eq
  | false =>
    rw [Display.registers, Display.stderr_printAll_full kind, kind]
    refine (StripsTo.join (List.forall₂_map_left_iff.2 ?_)).strip_eq
    exact (stripsTo_boxPieces m).imp fun _ _ h => h.paint d .blue

/-! ## The words of a bare dump -/

/-- The words in front of the registers. -/
def firstWords (minimal : Bool) : List String :=
  if minimal then []
  else ["┌─────────────────────────┐", "│", "hex", "uint", "binary", "│"]

/-- The words that show a register. -/
def registerWords (minimal : Bool) : UInt8 × Nat → List String
  | (value, i) =>
    if minimal then ["R" ++ decimal i, decimal value.toNat]
    else ["│", "R" ++ decimal i, "0x" ++ hex 2 value.toNat, decimal value.toNat,
      binary 8 value.toNat, "│"]

/-- The words behind the registers. -/
def lastWords (minimal : Bool) (m : Machine) : List String :=
  if minimal then ["PC", decimal m.pc, "FL", binary 3 m.flag.bits.toNat]
  else ["│", "PC", "0x" ++ hex 2 m.pc, "FL", binary 3 m.flag.bits.toNat, "│",
    "└─────────────────────────┘"]

def bareWords (minimal : Bool) (m : Machine) : List String :=
  firstWords minimal ++ (numbered m).flatMap (registerWords minimal) ++ lastWords minimal m

theorem isWord_register (i : Nat) : IsWord ("R" ++ decimal i) :=
  IsWord.append (by decide) (isWord_decimal i)

theorem isWord_marked (n : Nat) : IsWord ("0x" ++ hex 2 n) :=
  IsWord.append (by decide) (isWord_hex 2 n)

theorem spells_bareTop : Spells (String.join bareTop) (firstWords false) := by
  have edge : Spells ("┌─────────────────────────┐" ++ "\n") ["┌─────────────────────────┐"] :=
    .word (by decide +kernel) (by decide)
  have side : Spells ("│" ++ "     ") ["│"] := .word (by decide) (by decide)
  have inHex : Spells ("hex" ++ "  ") ["hex"] := .word (by decide) (by decide)
  have inDecimal : Spells ("uint" ++ "  ") ["uint"] := .word (by decide) (by decide)
  have inBinary : Spells ("binary" ++ "   ") ["binary"] := .word (by decide) (by decide)
  have side' : Spells ("│" ++ "\n") ["│"] := .word (by decide) (by decide)
  have lines : Spells _ (firstWords false) :=
    ((((edge.append side).append inHex).append inDecimal).append inBinary).append side'
  have cut : "│     hex  uint  binary   │" =
      "│" ++ "     " ++ ("hex" ++ "  ") ++ ("uint" ++ "  ") ++ ("binary" ++ "   ") ++ "│" := by
    decide +kernel
  simpa only [bareTop, cut, String.join_cons, String.join_nil, String.append_empty,
    String.append_assoc] using lines

theorem spells_bareRow (value : UInt8) (i : Nat) :
    Spells (String.join (bareRow value i)) (registerWords false (value, i)) := by
  -- cut anew, so that every part ends with the blanks behind its word
  have column {text : String} (word : IsWord text) : Spells (text ++ "  ") [text] :=
    .word word (by decide)
  have side : Spells ("│" ++ " ") ["│"] := .word (by decide) (by decide)
  have name := column (isWord_register i)
  have inHex := column (isWord_marked value.toNat)
  have inDecimal := Spells.alignRight 4 (column (isWord_decimal value.toNat))
  have inBinary : Spells (binary 8 value.toNat ++ " ") [binary 8 value.toNat] :=
    .word (isWord_binary 8 _) (by decide)
  have side' : Spells ("│" ++ "\n") ["│"] := .word (by decide) (by decide)
  have line : Spells _ (registerWords false (value, i)) :=
    ((((side.append name).append inHex).append inDecimal).append inBinary).append side'
  have cut : " │" = " " ++ "│" := rfl
  simpa only [bareRow, figures, cut, String.join_cons, String.join_nil, String.append_empty,
    String.append_assoc] using line

theorem spells_bareBottom (m : Machine) :
    Spells (String.join (bareBottom m)) (lastWords false m) := by
  have side : Spells ("│" ++ " ") ["│"] := .word (by decide) (by decide)
  have counter : Spells ("PC" ++ "  ") ["PC"] := .word (by decide) (by decide)
  have address : Spells ("0x" ++ hex 2 m.pc ++ "      ") ["0x" ++ hex 2 m.pc] :=
    .word (isWord_marked m.pc) (by decide)
  have flag : Spells ("FL" ++ "  ") ["FL"] := .word (by decide) (by decide)
  have bits : Spells (binary 3 m.flag.bits.toNat ++ " ") [binary 3 m.flag.bits.toNat] :=
    .word (isWord_binary 3 _) (by decide)
  have side' : Spells ("│" ++ "\n") ["│"] := .word (by decide) (by decide)
  have edge : Spells ("└─────────────────────────┘" ++ "\n") ["└─────────────────────────┘"] :=
    .word (by decide +kernel) (by decide)
  have lines : Spells _ (lastWords false m) :=
    (((((side.append counter).append address).append flag).append bits).append side').append edge
  have cut : " │" = " " ++ "│" := rfl
  have cut' : "  0x" = "  " ++ "0x" := rfl
  simpa only [bareBottom, cut, cut', String.join_cons, String.join_nil, String.append_empty,
    String.append_assoc] using lines

theorem spells_plainLine (value : UInt8) (i : Nat) :
    Spells ("R" ++ decimal i ++ " " ++ decimal value.toNat ++ "\n")
      (registerWords true (value, i)) := by
  have name : Spells ("R" ++ decimal i ++ " ") ["R" ++ decimal i] :=
    .word (isWord_register i) (by decide)
  have figure : Spells (decimal value.toNat ++ "\n") [decimal value.toNat] :=
    .word (isWord_decimal _) (by decide)
  have line : Spells _ (registerWords true (value, i)) := name.append figure
  rwa [← String.append_assoc] at line

theorem spells_plainLast (m : Machine) :
    Spells (String.join
      ["PC " ++ decimal m.pc ++ "\n", "FL " ++ binary 3 m.flag.bits.toNat ++ "\n"])
      (lastWords true m) := by
  have counter : Spells ("PC" ++ " ") ["PC"] := .word (by decide) (by decide)
  have address : Spells (decimal m.pc ++ "\n") [decimal m.pc] :=
    .word (isWord_decimal _) (by decide)
  have flag : Spells ("FL" ++ " ") ["FL"] := .word (by decide) (by decide)
  have bits : Spells (binary 3 m.flag.bits.toNat ++ "\n") [binary 3 m.flag.bits.toNat] :=
    .word (isWord_binary 3 _) (by decide)
  have lines : Spells _ (lastWords true m) :=
    ((counter.append address).append flag).append bits
  have cut : "PC " = "PC" ++ " " := rfl
  have cut' : "FL " = "FL" ++ " " := rfl
  simpa only [cut, cut', String.join_cons, String.join_nil, String.append_empty,
    String.append_assoc] using lines

theorem spells_bare (minimal : Bool) (m : Machine) :
    Spells (String.join (bare minimal m)) (bareWords minimal m) := by
  cases minimal with
  | false =>
    have box : bare false m = bareTop
        ++ (numbered m).flatMap (fun (value, i) => bareRow value i) ++ bareBottom m := rfl
    rw [box, String.join_append, String.join_append]
    exact (spells_bareTop.append
      (.join_flatMap (fun (value, i) => spells_bareRow value i) _)).append (spells_bareBottom m)
  | true =>
    have lines : bare true m = plainPieces m := rfl
    rw [lines, plainPieces, List.map_eq_flatMap, String.join_append]
    refine (Spells.join_flatMap (fun (value, i) => ?_) _).append (spells_plainLast m)
    rw [String.join_cons, String.join_nil, String.append_empty]
    exact spells_plainLine value i

/-! ## Reading a dump back -/

/-- Blocks of one length are told apart, and so is what each of them tells. -/
theorem map_eq_of_flatMap_eq {α β γ : Type} {block : α → List β} {told : α → γ} {k : Nat}
    (long : ∀ a, (block a).length = k) (tells : ∀ a b, block a = block b → told a = told b)
    {as bs : List α} (many : as.length = bs.length) (same : as.flatMap block = bs.flatMap block) :
    as.map told = bs.map told := by
  induction as generalizing bs with
  | nil => rw [List.eq_nil_of_length_eq_zero many.symm]
  | cons a as ih =>
    cases bs with
    | nil => cases many
    | cons b bs =>
      rw [List.flatMap_cons, List.flatMap_cons] at same
      obtain ⟨first, others⟩ := List.append_inj same (by rw [long, long])
      rw [List.map_cons, List.map_cons, tells a b first, ih (Nat.succ.inj many) others]

theorem length_registerWords (minimal : Bool) (a : UInt8 × Nat) :
    (registerWords minimal a).length = if minimal then 2 else 6 := by
  cases minimal <;> rfl

theorem length_lastWords (minimal : Bool) (m : Machine) :
    (lastWords minimal m).length = if minimal then 4 else 7 := by
  cases minimal <;> rfl

theorem value_eq_of_registerWords {minimal : Bool} {a b : UInt8 × Nat}
    (same : registerWords minimal a = registerWords minimal b) : a.1 = b.1 := by
  have figure : decimal a.1.toNat = decimal b.1.toNat := by
    cases minimal with
    | true => exact (List.cons.inj (List.cons.inj same).2).1
    | false =>
      simp only [registerWords, Bool.false_eq_true, if_false, List.cons.injEq] at same
      exact same.2.2.2.1
  exact UInt8.toNat_inj.1 (decimal_inj figure)

theorem eq_of_lastWords {minimal : Bool} {m n : Machine}
    (same : lastWords minimal m = lastWords minimal n) : m.pc = n.pc ∧ m.flag = n.flag := by
  have flag (bits : binary 3 m.flag.bits.toNat = binary 3 n.flag.bits.toNat) : m.flag = n.flag :=
    Flag.bits_inj (UInt8.toNat_inj.1 (binary_inj bits))
  cases minimal with
  | false =>
    simp only [lastWords, Bool.false_eq_true, if_false, List.cons.injEq, String.append_right_inj,
      true_and, and_true] at same
    exact ⟨hex_inj same.1, flag same.2⟩
  | true =>
    simp only [lastWords, if_true, List.cons.injEq, true_and, and_true] at same
    exact ⟨decimal_inj same.1, flag same.2⟩

theorem eq_of_bareWords {minimal : Bool} {m n : Machine}
    (same : bareWords minimal m = bareWords minimal n) :
    m.registers = n.registers ∧ m.pc = n.pc ∧ m.flag = n.flag := by
  have long : (lastWords minimal m).length = (lastWords minimal n).length := by
    rw [length_lastWords, length_lastWords]
  obtain ⟨front, behind⟩ := List.append_inj' same long
  have rows := List.append_cancel_left front
  have values := map_eq_of_flatMap_eq (length_registerWords minimal)
    (fun _ _ => value_eq_of_registerWords) (by simp [numbered, Registers.toList]) rows
  rw [numbered, numbered, List.zipIdx_map_fst, List.zipIdx_map_fst] at values
  exact ⟨Machine.toList_registers_inj values, eq_of_lastWords behind⟩

/-- A dump looks at nothing else of a machine. -/
theorem pieces_congr {m n : Machine}
    (same : m.registers = n.registers ∧ m.pc = n.pc ∧ m.flag = n.flag) (minimal : Bool) :
    pieces minimal m = pieces minimal n := by
  obtain ⟨registers, pc, flag⟩ := same
  simp only [pieces, plainPieces, boxPieces, numbered, bottom, registers, pc, flag]

end RegisterDump

namespace Display

open Escape RegisterDump

/-- **A register dump tells all it shows.**  On whatever display dumps are printed, minimal or full,
with colour or without, those of two machines are equal exactly if the machines have the same
registers, program counter and flag; and so is what stripping leaves of them. -/
theorem registers_faithful (d : Display) (m n : Machine) :
    let text (m : Machine) := (d.registers (.diagnostic .always) m).stderr
    let same := m.registers = n.registers ∧ m.pc = n.pc ∧ m.flag = n.flag
    (text m = text n ↔ same) ∧ (strip (text m) = strip (text n) ↔ same) := by
  intro text same
  have shown (alike : same) : text m = text n := by
    simp only [text, Display.registers, pieces_congr alike]
  have told (stripped : strip (text m) = strip (text n)) : same := by
    rw [strip_stderr_registers, strip_stderr_registers] at stripped
    have spelled := (spells_bare d.minimal m).words_eq
    rw [stripped, (spells_bare d.minimal n).words_eq] at spelled
    exact eq_of_bareWords spelled.symm
  exact ⟨⟨fun equal => told (congrArg _ equal), shown⟩,
    ⟨told, fun alike => congrArg _ (shown alike)⟩⟩

end Display

end EightBit
