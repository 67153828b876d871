/-
# EightBit.Machine -- the state of the computer

A machine is its memory, its registers, the program counter, the flag, whether it still runs, and
the number of instructions it has carried out.  The host loads programs and sets registers and
cells; what instructions do is in `EightBit.Machine.Step`.

The stack lives in memory below the address it starts at.  A push lowers the stack pointer and then
writes, a pop raises it and then reads where it was, so the cell at the stack pointer is the newest
value.  Both work in place.  `push_of_stackPointer_ne` and `pop_of_stackPointer_ne` say what they
leave; each fails only at its end of the address range, and then before it has changed anything.
-/
import EightBit.Procedure
import EightBit.Flag
import EightBit.Memory
import EightBit.Registers

namespace EightBit

set_option autoImplicit false

/-- Whether a machine carries out instructions. -/
inductive Status where
  | running
  | halted
  deriving DecidableEq, Repr

/-- The state of the computer. -/
structure Machine where
  memory : Memory := .zero
  registers : Registers := .initial
  pc : Nat := 0
  flag : Flag := .uninit
  status : Status := .running
  steps : Nat := 0
  deriving DecidableEq, Repr

namespace Machine

open Procedure

/-- The machine before a program is loaded. -/
def initial : Machine := {}

def isHalted (m : Machine) : Bool :=
  m.status = .halted

/-! ## What the host may do -/

/-- The machine with `program` in its leading cells. -/
def load (m : Machine) (program : List UInt8) : Except Fault Machine :=
  (m.memory.load program).map fun memory => { m with memory }

def ofProgram (program : List UInt8) : Except Fault Machine :=
  initial.load program

def writeCell (m : Machine) (address : Nat) (value : UInt8) : Except Fault Machine :=
  (m.memory.write address value).map fun memory => { m with memory }

/-- The machine with `value` in the register a byte names. -/
def writeRegister (m : Machine) (byte value : UInt8) : Except Fault Machine :=
  (m.registers.write byte value).map fun registers => { m with registers }

/-! ## The stack -/

def stackPointer (m : Machine) : UInt8 :=
  m.registers.get .sp

def setStackPointer (sp : UInt8) : Procedure Machine Unit :=
  modify fun m => { m with registers := m.registers.set .sp sp }

def push (value : UInt8) : Procedure Machine Unit := do
  let sp := (← get).stackPointer
  if sp = 0 then throw .stackOverflow
  setStackPointer (sp - 1)
  let memory ← orFault ((← get).memory.write (sp - 1).toNat value)
  modify ({ · with memory })

def pop : Procedure Machine UInt8 := do
  let sp := (← get).stackPointer
  if sp = 255 then throw .stackUnderflow
  setStackPointer (sp + 1)
  orFault ((← get).memory.read sp.toNat)

theorem push_of_stackPointer_eq {m : Machine} (h : m.stackPointer = 0) (value : UInt8) :
    push value m = .error .stackOverflow m := by
  simp [push, h]

theorem push_of_stackPointer_ne {m : Machine} (h : m.stackPointer ≠ 0) (value : UInt8) :
    push value m = .ok () { m with
      memory := ⟨m.memory.cells.set (m.stackPointer - 1).toNat value (UInt8.toNat_lt _)⟩
      registers := m.registers.set .sp (m.stackPointer - 1) } := by
  have room : m.memory.write (m.stackPointer - 1).toNat value = .ok _ :=
    Memory.write_of_lt (UInt8.toNat_lt (m.stackPointer - 1)) value
  simp [push, h, setStackPointer, room]

theorem pop_of_stackPointer_eq {m : Machine} (h : m.stackPointer = 255) :
    pop m = .error .stackUnderflow m := by
  simp [pop, h]

theorem pop_of_stackPointer_ne {m : Machine} (h : m.stackPointer ≠ 255) :
    pop m = .ok (m.memory.cells.get ⟨m.stackPointer.toNat, UInt8.toNat_lt _⟩)
      { m with registers := m.registers.set .sp (m.stackPointer + 1) } := by
  have there : m.memory.read m.stackPointer.toNat = .ok _ :=
    Memory.read_of_lt (UInt8.toNat_lt m.stackPointer)
  simp [pop, h, setStackPointer, there]
  rfl

end Machine

end EightBit
