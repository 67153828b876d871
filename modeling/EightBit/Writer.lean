/-
# EightBit.Writer -- what the machine prints to

Bytes are offered to a writer.  It takes a leading part of an offer and says how many bytes that is,
or it takes none and says why; bytes that were not taken are offered again (`Writer.write`) until
all are taken or the writer refuses.  An attempt that is interrupted takes nothing and is made again
with the same bytes, so an offer stands for all attempts up to the first that is not interrupted,
and its answer is that one's.

A printed value is a decimal numeral and then a line feed, written one after the other
(`Writer.print`), so a refusal may leave any part of the line behind.

`held_write` and `held_print` say which part: all of the bytes when the write succeeds, and fewer
when it is refused.
-/
import EightBit.Text.Numeral

namespace EightBit

set_option autoImplicit false

/-- Why a writer refuses. -/
inductive SinkError where
  /-- There is no room for all of the bytes. -/
  | full
  /-- What was taken cannot be passed on. -/
  | closed
  /-- No byte of an offer was taken, and no reason given. -/
  | stalled
  /-- Anything else, in the writer's own words. -/
  | other (text : String)
  deriving DecidableEq, Repr

def SinkError.message : SinkError → String
  | full => "sink is full"
  | closed => "closed"
  | stalled => "failed to write whole buffer"
  | other text => text

/-- The number of bytes taken of an offer. -/
def SinkError.taken : Except SinkError Nat → Nat
  | .ok n => n
  | .error _ => 0

/-- Something that takes bytes and keeps count of those it holds.  An offer is an attempt to write
that is made again for as long as it is interrupted; an interruption is never its answer. -/
class Writer (σ : Type) where
  /-- All the bytes taken so far. -/
  held : σ → List UInt8
  /-- Offer bytes; the answer is how many of them were taken, from the front. -/
  offer : σ → List UInt8 → Except SinkError Nat × σ
  /-- Ask for everything held to be passed on. -/
  flush : σ → Except SinkError Unit × σ
  held_offer : ∀ (w : σ) (data : List UInt8),
    held (offer w data).2 = held w ++ data.take (SinkError.taken (offer w data).1)
  held_flush : ∀ w : σ, held (flush w).2 = held w

namespace Writer

variable {σ : Type} [Writer σ]

/-- Make at most `bound` offers until `data` is written. -/
def writeWithin : Nat → σ → List UInt8 → Except SinkError Unit × σ
  | 0, w, data => (if data = [] then .ok () else .error .stalled, w)
  | bound + 1, w, data =>
    if data = [] then (.ok (), w)
    else
      match offer w data with
      | (.ok 0, w) => (.error .stalled, w)
      | (.ok (n + 1), w) => writeWithin bound w (data.drop (n + 1))
      | (.error cause, w) => (.error cause, w)

/-- Write all of `data`.  Every offer but the last takes a byte, so the bound is never reached
(`writeWithin_eq_write`). -/
def write (w : σ) (data : List UInt8) : Except SinkError Unit × σ :=
  writeWithin data.length w data

/-- The digits printed for a value.  All of them are ASCII, so the code of a character is its
byte. -/
def digits (value : UInt8) : List UInt8 :=
  (Numeral.decimal value.toNat).toList.map Char.toUInt8

def lineFeed : UInt8 := 0x0A

/-- The line printed for a value. -/
def line (value : UInt8) : List UInt8 :=
  digits value ++ [lineFeed]

/-- Print a value on a line of its own. -/
def print (w : σ) (value : UInt8) : Except SinkError Unit × σ :=
  match write w (digits value) with
  | (.ok (), w) => write w [lineFeed]
  | (.error cause, w) => (.error cause, w)

/-! ## What a write leaves -/

theorem writeWithin_nil (bound : Nat) (w : σ) : writeWithin bound w [] = (.ok (), w) := by
  cases bound <;> rfl

theorem writeWithin_eq_write {bound : Nat} (w : σ) {data : List UInt8}
    (enough : data.length ≤ bound) : writeWithin bound w data = write w data := by
  suffices same : ∀ (a b : Nat) (w : σ) (data : List UInt8), data.length ≤ a → data.length ≤ b →
      writeWithin a w data = writeWithin b w data from same bound _ w data enough (Nat.le_refl _)
  intro a
  induction a with
  | zero =>
    intro b w data ha _
    obtain rfl := List.length_eq_zero_iff.1 (Nat.le_zero.1 ha)
    rw [writeWithin_nil, writeWithin_nil]
  | succ a ih =>
    intro b w data ha hb
    cases b with
    | zero =>
      obtain rfl := List.length_eq_zero_iff.1 (Nat.le_zero.1 hb)
      rw [writeWithin_nil, writeWithin_nil]
    | succ b =>
      simp only [writeWithin]
      split
      · rfl
      · rcases offer w data with ⟨_ | _ | n, w⟩
        · rfl
        · rfl
        · exact ih b w _ (by simp only [List.length_drop]; omega)
            (by simp only [List.length_drop]; omega)

/-- A write leaves a leading part of the data behind, and all of it exactly if it succeeds. -/
theorem held_writeWithin (bound : Nat) (w : σ) (data : List UInt8) :
    ∃ part, part <+: data ∧ held (writeWithin bound w data).2 = held w ++ part ∧
      ((writeWithin bound w data).1 = .ok () ↔ part = data) := by
  induction bound generalizing w data with
  | zero =>
    refine ⟨[], List.nil_prefix, by simp [writeWithin], ?_⟩
    by_cases h : data = [] <;> simp [writeWithin, h, eq_comm]
  | succ bound ih =>
    by_cases none_left : data = []
    · exact ⟨[], List.nil_prefix, by simp [writeWithin, none_left], by simp [writeWithin, none_left]⟩
    · have kept := held_offer w data
      simp only [writeWithin, none_left, if_false]
      rcases offered : offer w data with ⟨cause | taken, after⟩
      · refine ⟨[], List.nil_prefix, ?_, by simp [eq_comm, none_left]⟩
        simpa [offered, SinkError.taken] using kept
      · simp only [offered, SinkError.taken] at kept
        cases taken with
        | zero => exact ⟨[], List.nil_prefix, by simpa using kept, by simp [eq_comm, none_left]⟩
        | succ n =>
          -- what this offer took goes before the part the remaining offers leave
          obtain ⟨part, isPart, held_eq, ok_iff⟩ := ih after (data.drop (n + 1))
          refine ⟨data.take (n + 1) ++ part, ?_, ?_, ?_⟩
          · conv => rhs; rw [← List.take_append_drop (n + 1) data]
            exact (List.prefix_append_right_inj _).2 isPart
          · rw [held_eq, kept, List.append_assoc]
          · rw [ok_iff]
            conv => rhs; rhs; rw [← List.take_append_drop (n + 1) data]
            exact (List.append_cancel_left_eq ..).symm ▸ Iff.rfl

theorem held_write (w : σ) (data : List UInt8) :
    ∃ part, part <+: data ∧ held (write w data).2 = held w ++ part ∧
      ((write w data).1 = .ok () ↔ part = data) :=
  held_writeWithin _ w data

/-- A print leaves a leading part of the line behind, and all of it exactly if it succeeds. -/
theorem held_print (w : σ) (value : UInt8) :
    ∃ part, part <+: line value ∧ held (print w value).2 = held w ++ part ∧
      ((print w value).1 = .ok () ↔ part = line value) := by
  obtain ⟨part, isPart, held_eq, ok_iff⟩ := held_write w (digits value)
  rcases written : write w (digits value) with ⟨cause | _, after⟩
  · rw [written] at held_eq ok_iff
    have short : part ≠ digits value := fun all => by simpa using ok_iff.2 all
    refine ⟨part, isPart.trans (List.prefix_append ..), by simpa [print, written] using held_eq, ?_⟩
    have : part ≠ line value := fun all =>
      short (isPart.eq_of_length_le (by simp [all, line]))
    simp [print, written, this]
  · rw [written] at held_eq ok_iff
    obtain rfl := ok_iff.1 rfl
    obtain ⟨rest, isRest, held_rest, ok_rest⟩ := held_write after [lineFeed]
    refine ⟨digits value ++ rest, (List.prefix_append_right_inj _).2 isRest, ?_, ?_⟩
    · simp only [print, written, held_rest, held_eq, List.append_assoc]
    · simp [print, written, line, ok_rest]

end Writer

end EightBit
