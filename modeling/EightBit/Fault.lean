/-
# EightBit.Fault -- what stops a program

A fault is fatal: the machine stays at the instruction that raised it.
-/
import EightBit.Writer

namespace EightBit

set_option autoImplicit false

/-- A condition that stops a program, or a program that cannot be loaded. -/
inductive Fault where
  /-- The byte at `pc` is no instruction. -/
  | unsupportedOperation (opcode : UInt8) (pc : Nat)
  /-- The divisor of a remainder is zero. -/
  | divideByZero
  /-- There is no cell at `address`. -/
  | addressOutOfRange (address : Nat)
  /-- A push with the stack pointer at the first address. -/
  | stackOverflow
  /-- A pop with the stack pointer at the last address. -/
  | stackUnderflow
  /-- An operand names a register that does not exist. -/
  | invalidRegister (index : UInt8)
  /-- A program of `length` bytes is longer than memory. -/
  | programTooLarge (length : Nat)
  | output (cause : SinkError)
  deriving DecidableEq, Repr

open Numeral in
def Fault.message : Fault → String
  | unsupportedOperation opcode pc =>
    "unsupported operation 0b" ++ binary 8 opcode.toNat ++ " at address " ++ decimal pc
  | divideByZero => "division by zero"
  | addressOutOfRange address => "address " ++ decimal address ++ " is outside of memory"
  | stackOverflow => "stack overflow"
  | stackUnderflow => "stack underflow"
  | invalidRegister index => "no such register: R" ++ decimal index.toNat
  | programTooLarge length => "program of " ++ decimal length ++ " bytes does not fit in memory"
  | output cause => "failed to write output: " ++ cause.message

end EightBit
