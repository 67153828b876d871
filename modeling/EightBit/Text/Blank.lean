/-
# EightBit.Text.Blank -- white space and trimming

The characters with the Unicode property `White_Space`, as a table of ranges, and the removal of
them from both ends of a text.

`trim_append_blank` and `trim_blank_append` say that white space around a text is not part of its
trimmed form.
-/

namespace EightBit

set_option autoImplicit false

namespace Blank

/-- The code points with the property `White_Space`, as ranges with both ends included. -/
def ranges : List (Nat × Nat) :=
  [(0x09, 0x0D), (0x20, 0x20), (0x85, 0x85), (0xA0, 0xA0), (0x1680, 0x1680), (0x2000, 0x200A),
   (0x2028, 0x2029), (0x202F, 0x202F), (0x205F, 0x205F), (0x3000, 0x3000)]

def isBlank (c : Char) : Bool :=
  ranges.any fun (first, last) => first ≤ c.toNat && c.toNat ≤ last

def trimStart (text : List Char) : List Char :=
  text.dropWhile isBlank

def trimEnd (text : List Char) : List Char :=
  (text.reverse.dropWhile isBlank).reverse

/-- The text without the white space at its two ends. -/
def trim (text : List Char) : List Char :=
  trimEnd (trimStart text)

theorem trimStart_blank_append {front text : List Char} (h : ∀ c ∈ front, isBlank c = true) :
    trimStart (front ++ text) = trimStart text := by
  induction front with
  | nil => rfl
  | cons c front ih =>
    simp only [List.forall_mem_cons] at h
    simpa [trimStart, h.1] using ih h.2

theorem trimEnd_append_blank {text back : List Char} (h : ∀ c ∈ back, isBlank c = true) :
    trimEnd (text ++ back) = trimEnd text := by
  have : trimStart (back.reverse ++ text.reverse) = trimStart text.reverse :=
    trimStart_blank_append fun c hc => h c (List.mem_reverse.1 hc)
  simpa [trimEnd, trimStart] using this

theorem trim_blank_append {front text : List Char} (h : ∀ c ∈ front, isBlank c = true) :
    trim (front ++ text) = trim text := by
  rw [trim, trimStart_blank_append h, trim]

theorem trim_append_blank {text back : List Char} (h : ∀ c ∈ back, isBlank c = true) :
    trim (text ++ back) = trim text := by
  induction text with
  | nil =>
    have : trim (back ++ []) = trim [] := trim_blank_append h
    simpa using this
  | cons c text ih =>
    by_cases hc : isBlank c = true
    · simpa [trim, trimStart, hc] using ih
    · have : trimEnd ((c :: text) ++ back) = trimEnd (c :: text) := trimEnd_append_blank h
      simpa [trim, trimStart, hc] using this

end Blank

end EightBit
