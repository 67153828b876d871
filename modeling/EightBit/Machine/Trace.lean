/-
# EightBit.Machine.Trace -- one line that shows the next instruction

A trace line shows the program counter, the three bytes from it on, all registers and the mnemonic
of the instruction there.  Bytes behind the end of memory are shown as `--`, an instruction that
cannot be fetched or decoded as `???`.
-/
import EightBit.Machine
import EightBit.Operation

namespace EightBit

set_option autoImplicit false

namespace Machine

/-- The byte at an address in two upper-case hexadecimal digits, or `--`. -/
def showCell (m : Machine) (address : Nat) : String :=
  match m.memory.read address with
  | .ok byte => Numeral.upperHex 2 byte.toNat
  | .error _ => "--"

/-- The operation at the program counter, if there is one. -/
def nextOperation? (m : Machine) : Option Operation :=
  match m.memory.read m.pc with
  | .ok byte => Operation.decode? byte
  | .error _ => none

/-- The trace line of a machine. -/
def trace (m : Machine) : String :=
  "TRACE: " ++ Numeral.upperHex 2 m.pc ++ " | " ++ m.showCell m.pc ++ " " ++ m.showCell (m.pc + 1)
    ++ " " ++ m.showCell (m.pc + 2) ++ " |"
    ++ String.join (m.registers.toList.map fun value => " " ++ Numeral.upperHex 2 value.toNat)
    ++ " | " ++ (m.nextOperation?.map Operation.mnemonic).getD "???"

end Machine

end EightBit
