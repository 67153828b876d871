/-
# EightBit.Operation -- the instruction set and its encoding

An instruction byte is laid out as `AABCDDDD`: `AA` is the number of operand bytes that follow, `B`
is set for the arithmetic and logic unit, `C` is set when the instruction places the program counter
itself, and `DDDD` tells the operations of a group apart.  Decoding looks at `B` first, then at `C`,
and then for the byte among the operations of that group.

`decode?_eq_some_iff` says that decoding is exactly the inverse of `Operation.byte`, and
`operandCount_byte_le` that no operation has more than two operand bytes.
-/
import EightBit.Fault

namespace EightBit

set_option autoImplicit false

/-! ## Groups of operations -/

/-- Operations of the arithmetic and logic unit. -/
inductive AluOp where
  | add | mul | mod | cmp | and | not | or | xor | shl | shr
  deriving DecidableEq, Repr

/-- Control transfers: operations that place the program counter themselves. -/
inductive TransferOp where
  | call | ret | jmp | jeq | jne
  deriving DecidableEq, Repr

/-- Operations on registers, stack and sink, and the halt. -/
inductive DataOp where
  | hlt | ldi | prn | push | pop
  deriving DecidableEq, Repr

/-- An operation of any group. -/
inductive Operation where
  | alu (op : AluOp)
  | transfer (op : TransferOp)
  | data (op : DataOp)
  deriving DecidableEq, Repr

namespace AluOp

def all : List AluOp := [add, mul, mod, cmp, and, not, or, xor, shl, shr]

def byte : AluOp → UInt8
  | add => 0b1010_0000
  | mul => 0b1010_0010
  | mod => 0b1010_0100
  | cmp => 0b1010_0111
  | and => 0b1010_1000
  | not => 0b0110_1001
  | or => 0b1010_1010
  | xor => 0b1010_1011
  | shl => 0b1010_1100
  | shr => 0b1010_1101

def mnemonic : AluOp → String
  | add => "ADD"
  | mul => "MUL"
  | mod => "MOD"
  | cmp => "CMP"
  | and => "AND"
  | not => "NOT"
  | or => "OR"
  | xor => "XOR"
  | shl => "SHL"
  | shr => "SHR"

def ofByte? (b : UInt8) : Option AluOp := all.find? (·.byte == b)

theorem mem_all (op : AluOp) : op ∈ all := by cases op <;> decide

theorem ofByte?_byte (op : AluOp) : ofByte? op.byte = some op := by cases op <;> rfl

theorem byte_of_ofByte? {b : UInt8} {op : AluOp} (h : ofByte? b = some op) : op.byte = b := by
  simpa using List.find?_some h

end AluOp

namespace TransferOp

def all : List TransferOp := [call, ret, jmp, jeq, jne]

def byte : TransferOp → UInt8
  | call => 0b0101_0000
  | ret => 0b0001_0001
  | jmp => 0b0101_0100
  | jeq => 0b0101_0101
  | jne => 0b0101_0110

def mnemonic : TransferOp → String
  | call => "CALL"
  | ret => "RET"
  | jmp => "JMP"
  | jeq => "JEQ"
  | jne => "JNE"

def ofByte? (b : UInt8) : Option TransferOp := all.find? (·.byte == b)

theorem mem_all (op : TransferOp) : op ∈ all := by cases op <;> decide

theorem ofByte?_byte (op : TransferOp) : ofByte? op.byte = some op := by cases op <;> rfl

theorem byte_of_ofByte? {b : UInt8} {op : TransferOp} (h : ofByte? b = some op) : op.byte = b := by
  simpa using List.find?_some h

end TransferOp

namespace DataOp

def all : List DataOp := [hlt, ldi, prn, push, pop]

def byte : DataOp → UInt8
  | hlt => 0b0000_0001
  | ldi => 0b1000_0010
  | prn => 0b0100_0111
  | push => 0b0100_0101
  | pop => 0b0100_0110

def mnemonic : DataOp → String
  | hlt => "HLT"
  | ldi => "LDI"
  | prn => "PRN"
  | push => "PUSH"
  | pop => "POP"

def ofByte? (b : UInt8) : Option DataOp := all.find? (·.byte == b)

theorem mem_all (op : DataOp) : op ∈ all := by cases op <;> decide

theorem ofByte?_byte (op : DataOp) : ofByte? op.byte = some op := by cases op <;> rfl

theorem byte_of_ofByte? {b : UInt8} {op : DataOp} (h : ofByte? b = some op) : op.byte = b := by
  simpa using List.find?_some h

end DataOp

/-! ## The layout of an instruction byte -/

namespace Layout

/-- The number of operand bytes behind an instruction byte, from bits 7 and 6. -/
def operandCount (byte : UInt8) : Nat := (byte >>> 6).toNat

/-- The number of bytes of an instruction, its operands included. -/
def width (byte : UInt8) : Nat := 1 + operandCount byte

/-- Whether bit 5 gives the byte to the arithmetic and logic unit. -/
def isAlu (byte : UInt8) : Bool := byte &&& 0b0010_0000 != 0

/-- Whether bit 4 says that the instruction places the program counter itself. -/
def setsPc (byte : UInt8) : Bool := byte &&& 0b0001_0000 != 0

end Layout

namespace Operation

def byte : Operation → UInt8
  | alu op => op.byte
  | transfer op => op.byte
  | data op => op.byte

def mnemonic : Operation → String
  | alu op => op.mnemonic
  | transfer op => op.mnemonic
  | data op => op.mnemonic

/-- The operation an instruction byte stands for. -/
def decode? (byte : UInt8) : Option Operation :=
  if Layout.isAlu byte then (AluOp.ofByte? byte).map alu
  else if Layout.setsPc byte then (TransferOp.ofByte? byte).map transfer
  else (DataOp.ofByte? byte).map data

/-- The operation the instruction byte at address `pc` stands for. -/
def decode (byte : UInt8) (pc : Nat) : Except Fault Operation :=
  match decode? byte with
  | some op => .ok op
  | none => .error (.unsupportedOperation byte pc)

theorem decode?_byte (op : Operation) : decode? op.byte = some op := by
  cases op with
  | alu op => cases op <;> rfl
  | transfer op => cases op <;> rfl
  | data op => cases op <;> rfl

theorem byte_of_decode? {b : UInt8} {op : Operation} (h : decode? b = some op) : op.byte = b := by
  unfold decode? at h
  split at h
  · obtain ⟨op', h', rfl⟩ := Option.map_eq_some_iff.1 h
    exact AluOp.byte_of_ofByte? h'
  · split at h
    · obtain ⟨op', h', rfl⟩ := Option.map_eq_some_iff.1 h
      exact TransferOp.byte_of_ofByte? h'
    · obtain ⟨op', h', rfl⟩ := Option.map_eq_some_iff.1 h
      exact DataOp.byte_of_ofByte? h'

theorem decode?_eq_some_iff {b : UInt8} {op : Operation} : decode? b = some op ↔ op.byte = b :=
  ⟨byte_of_decode?, fun h => h ▸ decode?_byte op⟩

/-- An operation has at most two operand bytes. -/
theorem operandCount_byte_le (op : Operation) : Layout.operandCount op.byte ≤ 2 := by
  cases op with
  | alu op => cases op <;> decide
  | transfer op => cases op <;> decide
  | data op => cases op <;> decide

end Operation

end EightBit
