/-
# EightBit.Flag -- the outcome of the last comparison

The flag register has one bit for each outcome; no bit is set before the first comparison.
-/

namespace EightBit

set_option autoImplicit false

/-- The outcome of the last comparison, if there was one. -/
inductive Flag where
  | less
  | greater
  | equal
  | uninit
  deriving DecidableEq, Repr

namespace Flag

/-- The flag register: bit 2 for less, bit 1 for greater, bit 0 for equal. -/
def bits : Flag → UInt8
  | less => 0b100
  | greater => 0b010
  | equal => 0b001
  | uninit => 0b000

/-- The outcome of a comparison. -/
def ofOrdering : Ordering → Flag
  | .lt => less
  | .gt => greater
  | .eq => equal

/-- Whether the bit for equality is set. -/
def isEqual (f : Flag) : Bool :=
  f.bits &&& equal.bits != 0

theorem isEqual_iff (f : Flag) : f.isEqual = true ↔ f = equal := by
  cases f <;> decide

theorem bits_inj {f g : Flag} (h : f.bits = g.bits) : f = g := by
  revert h
  cases f <;> cases g <;> decide

end Flag

end EightBit
