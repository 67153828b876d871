/-
# EightBit.Sink -- a writer that keeps its bytes

A sink keeps the bytes written to it.  It may be bounded: it then takes the part of an offer that
fits and refuses once it is full.  It may also be unable to pass its bytes on when the program is
done.

`write_eq` says what a write leaves: the part of the data that fits, and a refusal if that is not
all of it.
-/
import EightBit.Writer

namespace EightBit

set_option autoImplicit false

/-- A sink: the bytes it holds, the number of bytes it has room for, and whether it refuses to be
flushed. -/
structure Sink where
  bytes : List UInt8 := []
  limit : Option Nat := none
  flushFails : Bool := false
  deriving DecidableEq, Repr

namespace Sink

/-- The leading part of `data` that a sink has room for. -/
def fitting (s : Sink) (data : List UInt8) : List UInt8 :=
  match s.limit with
  | none => data
  | some limit => data.take (limit - s.bytes.length)

/-- The sink with more bytes. -/
def append (s : Sink) (data : List UInt8) : Sink :=
  { s with bytes := s.bytes ++ data }

/-- Take what fits of an offer; a sink without room for a first byte says that it is full. -/
def offer (s : Sink) (data : List UInt8) : Except SinkError Nat × Sink :=
  if s.fitting data = [] ∧ data ≠ [] then (.error .full, s)
  else (.ok (s.fitting data).length, s.append (s.fitting data))

/-- Pass on the bytes held. -/
def flush (s : Sink) : Except SinkError Unit × Sink :=
  (if s.flushFails then .error .closed else .ok (), s)

theorem fitting_isPrefix (s : Sink) (data : List UInt8) : s.fitting data <+: data := by
  unfold fitting
  split
  · exact List.prefix_rfl
  · exact List.take_prefix _ _

theorem take_length_fitting (s : Sink) (data : List UInt8) :
    data.take (s.fitting data).length = s.fitting data :=
  (List.prefix_iff_eq_take.1 (s.fitting_isPrefix data)).symm

@[default_instance] instance : Writer Sink where
  held := bytes
  offer := offer
  flush := flush
  held_offer s data := by
    unfold offer
    split
    · simp [SinkError.taken]
    · simp [SinkError.taken, append, take_length_fitting]
  held_flush _ := rfl

/-- The bytes held, each as the character of that code. -/
def text (s : Sink) : String :=
  String.ofList (s.bytes.map Char.ofUInt8)

theorem fitting_of_limit_none {s : Sink} (h : s.limit = none) (data : List UInt8) :
    s.fitting data = data := by
  simp [fitting, h]

/-- What fits of the rest once what fits has been taken: nothing, unless all of it fits. -/
theorem fitting_append_fitting (s : Sink) (data : List UInt8)
    (more : data.drop (s.fitting data).length ≠ []) :
    (s.append (s.fitting data)).fitting (data.drop (s.fitting data).length) = [] := by
  revert more
  unfold fitting append
  cases s.limit with
  | none => simp
  | some limit =>
    intro more
    simp only [ne_eq, List.drop_eq_nil_iff, List.length_take] at more
    simp only [List.length_append, List.length_take, List.take_eq_nil_iff]
    left
    omega

theorem writeWithin_full {s : Sink} {data : List UInt8} (bound : Nat) (some_left : data ≠ [])
    (full : s.fitting data = []) : Writer.writeWithin (bound + 1) s data = (.error .full, s) := by
  simp [Writer.writeWithin, some_left, Writer.offer, offer, full]

/-- A write leaves the part of the data that fits, and is refused if that is not all of it. -/
theorem write_eq (s : Sink) (data : List UInt8) :
    Writer.write s data =
      (if s.fitting data = data then .ok () else .error .full, s.append (s.fitting data)) := by
  by_cases none_left : data = []
  · have nothing : s.fitting [] = [] := List.prefix_nil.1 (s.fitting_isPrefix [])
    simp [none_left, Writer.write, Writer.writeWithin, nothing, append]
  · obtain ⟨bound, long⟩ : ∃ bound, data.length = bound + 1 :=
      Nat.exists_eq_add_one_of_ne_zero (by simpa using none_left)
    rw [Writer.write, long]
    cases kept : s.fitting data with
    | nil =>
      rw [writeWithin_full bound none_left kept]
      simp [append, Ne.symm none_left]
    | cons b bs =>
      have offered : Writer.offer s data = (.ok (bs.length + 1), s.append (b :: bs)) := by
        simp [Writer.offer, offer, kept]
      simp only [Writer.writeWithin, none_left, if_false, offered]
      have rest := s.fitting_append_fitting data
      rw [kept, List.length_cons] at rest
      have taken := s.take_length_fitting data
      rw [kept, List.length_cons] at taken
      by_cases all : data.drop (bs.length + 1) = []
      · have whole : b :: bs = data := by
          rw [← taken, List.take_of_length_le (List.drop_eq_nil_iff.1 all)]
        rw [all, Writer.writeWithin_nil, if_pos whole]
      · have part : b :: bs ≠ data := fun h => all (by simp [← h])
        rw [if_neg part]
        cases bound with
        | zero => simp only [List.drop_eq_nil_iff] at all; omega
        | succ bound => rw [writeWithin_full bound all (rest all)]

end Sink

end EightBit
