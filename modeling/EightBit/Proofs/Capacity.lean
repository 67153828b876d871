/-
# EightBit.Proofs.Capacity -- how many values the stack takes and gives

With the stack pointer at `s` there are `s` cells below it to push to, and `255 - s` cells from it on
that pops can give.  So many pushes or pops succeed in a row, and then one is refused.  The last cell
has no part in this: a push stores below the stack pointer, and a pop that finds the stack pointer
there is refused.

`Pushed` says what pushes leave: the values in the cells just below, the newest lowest, and all else
as it was (`exists_pushed`).  Pops give the cells upwards from the stack pointer (`popAll_of_le`), so
they give pushed values back in reverse (`popAll_of_pushed`).  `stack_capacity` puts these together.
-/
import EightBit.Proofs.Stack

namespace EightBit

set_option autoImplicit false

namespace Registers

theorem set_get_self (rs : Registers) (r : Register) : rs.set r (rs.get r) = rs := by
  ext s
  rw [get_set]
  split
  · next same => rw [same]
  · rfl

theorem set_set_self (rs : Registers) (r : Register) (v w : UInt8) :
    (rs.set r v).set r w = rs.set r w := by
  ext s
  simp only [get_set]
  split <;> rfl

end Registers

namespace Machine

open Manual Procedure

variable {m m' m'' : Machine} {values : List UInt8}

/-! ## Many pushes, many pops -/

/-- Push values one after the other. -/
def pushAll : List UInt8 → Procedure Machine Unit
  | [] => return ()
  | value :: rest => do
    push value
    pushAll rest

/-- Pop so many values, the one popped first in front. -/
def popAll : Nat → Procedure Machine (List UInt8)
  | 0 => return []
  | n + 1 => do
    let value ← pop
    return value :: (← popAll n)

theorem pushAll_nil (m : Machine) : pushAll [] m = .ok () m := rfl

theorem pushAll_cons {value : UInt8} (first : push value m = .ok () m') (rest : List UInt8) :
    pushAll (value :: rest) m = pushAll rest m' := by
  simp [pushAll, first]

theorem pushAll_cons_of_error {value : UInt8} {fault : Fault}
    (refused : push value m = .error fault m') (rest : List UInt8) :
    pushAll (value :: rest) m = .error fault m' := by
  simp [pushAll, refused]

theorem pushAll_append {first : List UInt8} (pushed : pushAll first m = .ok () m')
    (others : List UInt8) : pushAll (first ++ others) m = pushAll others m' := by
  induction first generalizing m with
  | nil =>
    rw [pushAll_nil] at pushed
    cases pushed
    rfl
  | cons value first ih =>
    cases one : push value m with
    | error fault m₁ =>
      rw [pushAll_cons_of_error one] at pushed
      cases pushed
    | ok _ m₁ =>
      rw [pushAll_cons one] at pushed
      rw [List.cons_append, pushAll_cons one, ih pushed]

theorem popAll_succ {value : UInt8} {n : Nat} {rest : List UInt8} (first : pop m = .ok value m')
    (others : popAll n m' = .ok rest m'') : popAll (n + 1) m = .ok (value :: rest) m'' := by
  simp [popAll, first, others]

/-! ## Pushes -/

/-- What pushing values makes of a machine: they lie below its stack pointer, the newest lowest, and
all other cells and registers are as they were. -/
structure Pushed (m : Machine) (values : List UInt8) (m' : Machine) : Prop where
  pointer : m'.stackPointer.toNat + values.length = m.stackPointer.toNat
  rest : m' = { m with
    memory := m'.memory, registers := m.registers.set .sp m'.stackPointer }
  holds : ∀ i (inside : i < values.length),
    cell m'.memory (m.stackPointer.toNat - 1 - i) = values[i]
  kept : ∀ address, address < m'.stackPointer.toNat ∨ m.stackPointer.toNat ≤ address →
    cell m'.memory address = cell m.memory address

theorem Pushed.nil (m : Machine) : Pushed m [] m where
  pointer := rfl
  rest := by rw [stackPointer, Registers.set_get_self]
  holds _ inside := by simp at inside
  kept _ _ := rfl

/-- A push that finds a cell below the stack pointer stores its value there. -/
theorem exists_pushed_singleton (room : m.stackPointer ≠ 0) (value : UInt8) :
    ∃ m', push value m = .ok () m' ∧ Pushed m [value] m' := by
  have lowered := toNat_sub_one room
  refine ⟨_, push_of_allowed (require_eq_none.2 room) value, ?_, ?_, ?_, ?_⟩
  · simpa [stackPointer] using lowered
  · simp [stackPointer]
  · intro i inside
    obtain rfl : i = 0 := by simpa using inside
    rw [show m.stackPointer.toNat - 1 - 0 = (m.stackPointer - 1).toNat by omega]
    exact cell_store_self m.memory (UInt8.toNat_lt _) value
  · intro address apart
    refine cell_store_of_ne m.memory ?_ value
    rintro rfl
    simp only [stackPointer, Registers.get_set_self] at apart lowered
    omega

/-- What is pushed next lies lower, so it leaves the first value alone. -/
theorem Pushed.cons {value : UInt8} (first : Pushed m [value] m') (others : Pushed m' values m'') :
    Pushed m (value :: values) m'' := by
  have lowered := first.pointer
  have further := others.pointer
  rw [List.length_singleton] at lowered
  refine ⟨?_, ?_, ?_, ?_⟩
  · rw [List.length_cons]
    omega
  · rw [others.rest, first.rest]
    simp [stackPointer, Registers.set_set_self]
  · intro i inside
    cases i with
    | zero =>
      rw [others.kept _ (.inr (by omega))]
      exact first.holds 0 Nat.zero_lt_one
    | succ i =>
      rw [show m.stackPointer.toNat - 1 - (i + 1) = m'.stackPointer.toNat - 1 - i by omega]
      exact others.holds i (by simpa using inside)
  · intro address apart
    rw [others.kept address (by omega), first.kept address (by omega)]

/-- There is room for as many values as there are cells below the stack pointer. -/
theorem exists_pushed (room : values.length ≤ m.stackPointer.toNat) :
    ∃ m', pushAll values m = .ok () m' ∧ Pushed m values m' := by
  induction values generalizing m with
  | nil => exact ⟨m, pushAll_nil m, .nil m⟩
  | cons value values ih =>
    rw [List.length_cons] at room
    have some_room : m.stackPointer ≠ 0 := by
      intro none_left
      rw [none_left, UInt8.toNat_zero] at room
      omega
    obtain ⟨m', pushed, first⟩ := exists_pushed_singleton some_room value
    have lowered := first.pointer
    rw [List.length_singleton] at lowered
    obtain ⟨m'', all, others⟩ := ih (m := m') (by omega)
    exact ⟨m'', (pushAll_cons pushed values).trans all, first.cons others⟩

/-- With more values, those that there is room for are pushed, and then nothing more is. -/
theorem exists_pushed_of_lt (more : m.stackPointer.toNat < values.length) :
    ∃ m', pushAll (values.take m.stackPointer.toNat) m = .ok () m' ∧
      Pushed m (values.take m.stackPointer.toNat) m' ∧
      (∀ value, push value m' = .error .stackOverflow m') ∧
      pushAll values m = .error .stackOverflow m' := by
  have as_many : (values.take m.stackPointer.toNat).length = m.stackPointer.toNat := by
    rw [List.length_take]
    omega
  obtain ⟨m', pushed, left⟩ := exists_pushed (Nat.le_of_eq as_many)
  have lowest : m'.stackPointer = 0 := by
    have := left.pointer
    exact UInt8.toNat_inj.1 (by rw [UInt8.toNat_zero]; omega)
  have refused (value : UInt8) : push value m' = .error .stackOverflow m' :=
    push_of_stackPointer_eq lowest value
  refine ⟨m', pushed, left, refused, ?_⟩
  obtain ⟨value, rest, behind⟩ : ∃ value rest, values.drop m.stackPointer.toNat = value :: rest :=
    List.exists_cons_of_ne_nil (by simpa using more)
  rw [← List.take_append_drop m.stackPointer.toNat values, pushAll_append pushed, behind]
  exact pushAll_cons_of_error (refused value) rest

/-! ## Pops -/

/-- The cells from an address on, so many. -/
def cellsFrom (memory : Memory) (address n : Nat) : List UInt8 :=
  (List.range' address n).map (cell memory)

/-- Pops give the cells from the stack pointer on, up to the last but one, and change no cell. -/
theorem popAll_of_le {n : Nat} (room : m.stackPointer.toNat + n ≤ 255) :
    popAll n m = .ok (cellsFrom m.memory m.stackPointer.toNat n)
      { m with registers := m.registers.set .sp (.ofNat (m.stackPointer.toNat + n)) } := by
  induction n generalizing m with
  | zero =>
    rw [Nat.add_zero, UInt8.ofNat_toNat, stackPointer, Registers.set_get_self]
    rfl
  | succ n ih =>
    have not_last : m.stackPointer ≠ 255 := by
      intro last
      rw [last, show (255 : UInt8).toNat = 255 from rfl] at room
      omega
    have raised := toNat_add_one not_last
    let m' : Machine := { m with registers := m.registers.set .sp (m.stackPointer + 1) }
    have at_next : m'.stackPointer.toNat = m.stackPointer.toNat + 1 := by
      simpa [m', stackPointer] using raised
    have others := ih (m := m') (by omega)
    rw [popAll_succ (pop_of_allowed (require_eq_none.2 not_last)) others, at_next]
    simp only [m', Registers.set_set_self, cellsFrom, List.range'_succ, List.map_cons,
      Nat.add_right_comm _ 1 n]
    rfl

/-- Pops give pushed values back, the newest first, and the registers with them. -/
theorem popAll_of_pushed (pushed : Pushed m values m') :
    popAll values.length m' = .ok values.reverse { m with memory := m'.memory } := by
  have high : m'.stackPointer.toNat + values.length = m.stackPointer.toNat := pushed.pointer
  have small := m.stackPointer.toNat_lt
  have given : cellsFrom m'.memory m'.stackPointer.toNat values.length = values.reverse := by
    apply List.ext_getElem
    · simp [cellsFrom]
    · intro i inside inside'
      rw [List.length_reverse] at inside'
      have lies := pushed.holds (values.length - 1 - i) (by omega)
      rw [List.getElem_reverse, ← lies]
      simp only [cellsFrom, List.getElem_map, List.getElem_range', Nat.one_mul]
      congr 1
      omega
  rw [popAll_of_le (by omega), given, high, UInt8.ofNat_toNat]
  have back : m'.registers.set .sp m.stackPointer = m.registers := by
    rw [pushed.rest, Registers.set_set_self, stackPointer, Registers.set_get_self]
  rw [back, pushed.rest]

/-! ## Both -/

/-- A push leaves the last cell alone. -/
theorem push_eq_or (value : UInt8) (m : Machine) :
    push value m = .error .stackOverflow m ∨
      ∃ m', push value m = .ok () m' ∧ cell m'.memory 255 = cell m.memory 255 := by
  by_cases empty : m.stackPointer = 0
  · exact .inl (push_of_stackPointer_eq empty value)
  · obtain ⟨m', pushed, left⟩ := exists_pushed_singleton empty value
    have small := m.stackPointer.toNat_lt
    exact .inr ⟨m', pushed, left.kept 255 (.inr (by omega))⟩

/-- A pop gives the cell at the stack pointer, which is not the last. -/
theorem pop_eq_or (m : Machine) :
    pop m = .error .stackUnderflow m ∨
      m.stackPointer.toNat < 255 ∧ ∃ m', pop m = .ok (cell m.memory m.stackPointer.toNat) m' ∧
        m'.memory = m.memory := by
  by_cases full : m.stackPointer = 255
  · exact .inl (pop_of_stackPointer_eq full)
  · have raised := toNat_add_one full
    have small := (m.stackPointer + 1).toNat_lt
    exact .inr ⟨by omega, _, pop_of_allowed (require_eq_none.2 full), rfl⟩

/-- **The capacity of the stack.**  Take any machine, with its stack pointer at `s`, and any values.
Up to `s` values can be pushed; they then lie in the cells just below `s`, nothing else has changed
but the stack pointer, and as many pops give them back in reverse and restore the registers.  Of more
values the first `s` are pushed, and the next push is refused and changes nothing.  Pops, for their
part, give the cells from `s` to 254 in order and change none, and the next pop is refused and changes
nothing.  The last cell is never changed by a push and never given by a pop. -/
theorem stack_capacity (m : Machine) (values : List UInt8) :
    let s := m.stackPointer.toNat
    (values.length ≤ s → ∃ m', pushAll values m = .ok () m' ∧ Pushed m values m' ∧
      popAll values.length m' = .ok values.reverse { m with memory := m'.memory }) ∧
    (s < values.length → ∃ m', pushAll (values.take s) m = .ok () m' ∧
      Pushed m (values.take s) m' ∧ (∀ value, push value m' = .error .stackOverflow m') ∧
      pushAll values m = .error .stackOverflow m') ∧
    (∃ m', popAll (255 - s) m = .ok (cellsFrom m.memory s (255 - s)) m' ∧
      m' = { m with registers := m.registers.set .sp 255 } ∧
      pop m' = .error .stackUnderflow m') ∧
    (∀ value, push value m = .error .stackOverflow m ∨
      ∃ m', push value m = .ok () m' ∧ cell m'.memory 255 = cell m.memory 255) ∧
    (pop m = .error .stackUnderflow m ∨
      s < 255 ∧ ∃ m', pop m = .ok (cell m.memory s) m' ∧ m'.memory = m.memory) := by
  intro s
  have small := m.stackPointer.toNat_lt
  refine ⟨?_, exists_pushed_of_lt, ?_, fun value => push_eq_or value m, pop_eq_or m⟩
  · intro room
    obtain ⟨m', pushed, left⟩ := exists_pushed room
    exact ⟨m', pushed, left, popAll_of_pushed left⟩
  · have all : s + (255 - s) = 255 := by omega
    refine ⟨_, popAll_of_le (Nat.le_of_eq all), ?_, pop_of_stackPointer_eq ?_⟩
    · rw [all]
      rfl
    · rw [all, stackPointer, Registers.get_set_self]
      rfl

end Machine

end EightBit
