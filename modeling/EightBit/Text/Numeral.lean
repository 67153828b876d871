/-
# EightBit.Text.Numeral -- positional numerals filled up to a width

A number is written with the fewest digits its base needs.  A width fills the numeral up on the
left; a number that needs more digits than the width keeps them all, so address 256 is `100` in two
hexadecimal places.

`ofDigitChars_decimal`, `ofDigitChars_binary` and `ofUpperHex_upperHex` read a numeral back, whence
`decimal_inj`, `binary_inj`, `upperHex_inj` and `hex_inj`.
-/

namespace EightBit

set_option autoImplicit false

namespace Numeral

/-- `n` in `base`, filled up with zeros to `width` digits. -/
def digits (base width n : Nat) : List Char :=
  (Nat.toDigits base n).leftpad width '0'

def decimal (n : Nat) : String :=
  String.ofList (digits 10 1 n)

/-- The binary numeral of `n` with at least `width` digits. -/
def binary (width n : Nat) : String :=
  String.ofList (digits 2 width n)

/-- The hexadecimal numeral of `n` with at least `width` digits, in lower case. -/
def hex (width n : Nat) : String :=
  String.ofList (digits 16 width n)

/-- The hexadecimal numeral of `n` with at least `width` digits, in upper case. -/
def upperHex (width n : Nat) : String :=
  String.ofList ((digits 16 width n).map Char.toUpper)

/-- `text` moved to the right end of `width` columns; a longer text is kept whole. -/
def alignRight (width : Nat) (text : String) : String :=
  String.ofList (text.toList.leftpad width ' ')

theorem isDigit_of_mem_digits {base : Nat} (h1 : 0 < base) (h2 : base ≤ 10) {width n : Nat}
    {c : Char} (member : c ∈ digits base width n) : c.isDigit = true := by
  rw [digits, List.leftpad] at member
  rcases List.mem_append.1 member with padding | digit
  · rw [List.eq_of_mem_replicate padding]
    decide
  · exact Nat.isDigit_of_mem_toDigits h1 h2 digit

theorem digits_ne_nil (base width n : Nat) : digits base width n ≠ [] := by
  simp [digits, Nat.toDigits_ne_nil]

/-! ## Reading back -/

theorem ofDigitChars_zeros (base n : Nat) (ds : List Char) :
    Nat.ofDigitChars base (List.replicate n '0' ++ ds) 0 = Nat.ofDigitChars base ds 0 := by
  induction n with
  | zero => rfl
  | succ n ih => simpa [List.replicate_succ, Nat.ofDigitChars_cons] using ih

theorem ofDigitChars_digits {base : Nat} (h1 : 1 < base) (h2 : base ≤ 10) (width n : Nat) :
    Nat.ofDigitChars base (digits base width n) 0 = n := by
  rw [digits, List.leftpad, ofDigitChars_zeros, Nat.ofDigitChars_toDigits h1 h2]

theorem ofDigitChars_decimal (n : Nat) : Nat.ofDigitChars 10 (decimal n).toList 0 = n := by
  simp [decimal, ofDigitChars_digits]

theorem ofDigitChars_binary (width n : Nat) :
    Nat.ofDigitChars 2 (binary width n).toList 0 = n := by
  simp [binary, ofDigitChars_digits]

theorem decimal_inj {m n : Nat} (h : decimal m = decimal n) : m = n := by
  rw [← ofDigitChars_decimal m, h, ofDigitChars_decimal]

theorem binary_inj {width m n : Nat} (h : binary width m = binary width n) : m = n := by
  rw [← ofDigitChars_binary width m, h, ofDigitChars_binary]

/-- What a digit of a hexadecimal numeral in upper case stands for. -/
def upperDigitValue (c : Char) : Nat :=
  if c ≤ '9' then c.toNat - '0'.toNat else c.toNat - 'A'.toNat + 10

/-- The number of a hexadecimal numeral in upper case. -/
def ofUpperHex (ds : List Char) : Nat :=
  ds.foldl (fun n c => 16 * n + upperDigitValue c) 0

theorem upperDigitValue_digitChar : ∀ d < 16, upperDigitValue (Nat.digitChar d).toUpper = d := by
  decide

theorem ofUpperHex_concat (ds : List Char) (c : Char) :
    ofUpperHex (ds ++ [c]) = 16 * ofUpperHex ds + upperDigitValue c := by
  rw [ofUpperHex, List.foldl_append]
  rfl

theorem ofUpperHex_zeros (k : Nat) (ds : List Char) :
    ofUpperHex (List.replicate k '0' ++ ds) = ofUpperHex ds := by
  induction k with
  | zero => rfl
  | succ k ih => exact ih

theorem ofUpperHex_toDigits (n : Nat) : ofUpperHex ((Nat.toDigits 16 n).map Char.toUpper) = n := by
  induction n using Nat.strongRecOn with
  | _ n ih =>
    rw [Nat.toDigits_eq_if (by decide)]
    split
    · next small =>
      have digit := ofUpperHex_concat [] (Nat.digitChar n).toUpper
      rw [upperDigitValue_digitChar n small] at digit
      simpa [ofUpperHex] using digit
    · next large =>
      rw [List.map_append, List.map_singleton, ofUpperHex_concat, ih (n / 16) (by omega),
        upperDigitValue_digitChar _ (Nat.mod_lt _ (by decide)), Nat.div_add_mod]

theorem ofUpperHex_upperHex (width n : Nat) : ofUpperHex (upperHex width n).toList = n := by
  have zeros (k : Nat) : (List.replicate k '0').map Char.toUpper = List.replicate k '0' := by
    rw [List.map_replicate]
    rfl
  rw [upperHex, String.toList_ofList, digits, List.leftpad, List.map_append, zeros,
    ofUpperHex_zeros, ofUpperHex_toDigits]

theorem upperHex_inj {width m n : Nat} (h : upperHex width m = upperHex width n) : m = n := by
  rw [← ofUpperHex_upperHex width m, h, ofUpperHex_upperHex]

theorem upperHex_eq (width n : Nat) :
    upperHex width n = String.ofList ((hex width n).toList.map Char.toUpper) := by
  rw [hex, String.toList_ofList, upperHex]

theorem hex_inj {width m n : Nat} (h : hex width m = hex width n) : m = n := by
  refine upperHex_inj (show upperHex width m = upperHex width n from ?_)
  rw [upperHex_eq, h, ← upperHex_eq]

end Numeral

end EightBit
