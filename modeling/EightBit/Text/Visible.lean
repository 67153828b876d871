/-
# EightBit.Text.Visible -- texts without control characters

A text is visible when no character of it comes before the blank: it holds no line feed and no ESC,
so a terminal shows all of it, and on one line.  Numerals are visible (`visible_decimal`,
`visible_binary`, `visible_hex`, `visible_upperHex`), and so is what is put together from visible
texts.
-/
import EightBit.Text.Numeral

namespace EightBit

set_option autoImplicit false

/-- Every character of the text is a blank or comes after it. -/
def Visible (text : String) : Prop :=
  ∀ c ∈ text.toList, ' ' ≤ c

namespace Visible

instance (text : String) : Decidable (Visible text) :=
  decidable_of_iff ((text.toList.all fun c => Nat.ble 32 c.toNat) = true) <| by
    simp [Visible, Char.le_def, UInt32.le_iff_toNat_le]

variable {a b : String} {c : Char}

theorem append (ha : Visible a) (hb : Visible b) : Visible (a ++ b) := by
  intro c hc
  rw [String.toList_append, List.mem_append] at hc
  exact hc.elim (ha c) (hb c)

theorem join {texts : List String} (h : ∀ text ∈ texts, Visible text) :
    Visible (String.join texts) := by
  induction texts with
  | nil => exact nofun
  | cons text rest ih =>
    rw [String.join_cons]
    exact (h text List.mem_cons_self).append
      (ih fun text member => h text (List.mem_cons_of_mem _ member))

theorem not_mem (h : Visible a) (control : c < ' ') : c ∉ a.toList :=
  fun member => absurd (h c member) (Char.not_le.2 control)

end Visible

/-! ## Numerals -/

namespace Numeral

theorem blank_le_toUpper {c : Char} (h : ' ' ≤ c) : ' ' ≤ c.toUpper := by
  unfold Char.toUpper
  split
  · next lower =>
    obtain ⟨first, last⟩ := lower
    rw [UInt32.le_iff_toNat_le] at first last
    show (32 : UInt32) ≤ c.val + (65 - 97)
    rw [UInt32.le_iff_toNat_le, UInt32.toNat_add]
    simp only [UInt32.reduceToNat, UInt32.reduceSub, Char.reduceVal] at first last ⊢
    omega
  · exact h

theorem exists_digit_of_mem_toDigits {base n : Nat} (h : 1 < base) {c : Char}
    (member : c ∈ Nat.toDigits base n) : ∃ d, c = Nat.digitChar d := by
  induction n using Nat.strongRecOn with
  | _ n ih =>
    rw [Nat.toDigits_eq_if h] at member
    split at member
    · exact ⟨n, by simpa using member⟩
    · next large =>
      rcases List.mem_append.1 member with front | last
      · exact ih (n / base) (Nat.div_lt_self (by omega) h) front
      · exact ⟨n % base, by simpa using last⟩

/-- What holds of the hexadecimal digits, and of the star that stands for all digits above them,
holds of all characters of a numeral. -/
theorem of_mem_digits {p : Char → Prop} (hexadecimal : ∀ d < 16, p (Nat.digitChar d))
    (above : p '*') {base : Nat} (h : 1 < base) {width n : Nat} {c : Char}
    (member : c ∈ digits base width n) : p c := by
  rw [digits, List.leftpad] at member
  rcases List.mem_append.1 member with padding | digit
  · rw [List.eq_of_mem_replicate padding]
    exact hexadecimal 0 (by decide)
  · obtain ⟨d, rfl⟩ := exists_digit_of_mem_toDigits h digit
    rcases Nat.lt_or_ge d 16 with small | large
    · exact hexadecimal d small
    · unfold Nat.digitChar
      repeat rw [if_neg (by omega)]
      exact above

theorem blank_le_of_mem_digits {base : Nat} (h : 1 < base) {width n : Nat} {c : Char}
    (member : c ∈ digits base width n) : ' ' ≤ c :=
  of_mem_digits (p := fun c => ' ' ≤ c) (by decide) (by decide) h member

theorem visible_digits {base : Nat} (h : 1 < base) (width n : Nat) :
    Visible (String.ofList (digits base width n)) := by
  intro c member
  exact blank_le_of_mem_digits h (String.toList_ofList ▸ member)

theorem visible_decimal (n : Nat) : Visible (decimal n) :=
  visible_digits (by decide) 1 n

theorem visible_binary (width n : Nat) : Visible (binary width n) :=
  visible_digits (by decide) width n

theorem visible_hex (width n : Nat) : Visible (hex width n) :=
  visible_digits (by decide) width n

theorem visible_alignRight (width : Nat) {text : String} (h : Visible text) :
    Visible (alignRight width text) := by
  intro c member
  rw [alignRight, String.toList_ofList, List.leftpad] at member
  rcases List.mem_append.1 member with padding | inText
  · obtain rfl := List.eq_of_mem_replicate padding
    exact Char.le_refl ' '
  · exact h c inText

theorem visible_upperHex (width n : Nat) : Visible (upperHex width n) := by
  intro c member
  rw [upperHex, String.toList_ofList] at member
  obtain ⟨digit, isDigit, rfl⟩ := List.mem_map.1 member
  exact blank_le_toUpper (blank_le_of_mem_digits (by decide) isDigit)

theorem blank_not_mem_upperHex (width n : Nat) : ' ' ∉ (upperHex width n).toList := by
  intro member
  rw [upperHex, String.toList_ofList] at member
  obtain ⟨c, digit, is_blank⟩ := List.mem_map.1 member
  exact of_mem_digits (p := fun c => c.toUpper ≠ ' ') (by decide) (by decide) (by decide) digit
    is_blank

end Numeral

end EightBit
