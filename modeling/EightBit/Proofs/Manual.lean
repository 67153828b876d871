/-
# EightBit.Proofs.Manual -- the instruction set as the manual has it

The manual gives each operation a row: how it changes the machine when it is applied to the two
bytes behind the instruction byte, and under which condition it is refused.  A row reads and writes
registers and cells as if all of them existed, because a refused operation is never carried out.

* `Manual.next` is the machine after an operation, `Manual.printed` the value it prints.
* `Manual.refusal` is the first reason to refuse an operation.
* `Manual.advance` joins them for the instruction at the program counter.

Numbers are exact here: sums, products and left shifts are formed without a bound and then taken
modulo 255.
-/
import EightBit.Machine.Step
import Mathlib.Algebra.Group.Nat.Defs

namespace EightBit

set_option autoImplicit false

/-- What an instruction leaves: the machine, and the value it prints. -/
structure Effect where
  machine : Machine
  printed : Option UInt8
  deriving DecidableEq, Repr

namespace Manual

/-! ## Cells and registers -/

/-- The byte at an address, and zero behind the end of memory. -/
def cell (memory : Memory) (address : Nat) : UInt8 :=
  (memory.read address).toOption.getD 0

/-- Memory with a value at an address. -/
def store (memory : Memory) (address : Nat) (value : UInt8) : Memory :=
  (memory.write address value).toOption.getD memory

/-- The value of the register a byte names. -/
def value (registers : Registers) (byte : UInt8) : UInt8 :=
  (registers.read byte).toOption.getD 0

/-- The registers with a value in the one a byte names. -/
def assign (registers : Registers) (byte v : UInt8) : Registers :=
  (registers.write byte v).toOption.getD registers

/-! ## Arithmetic and logic -/

/-- The flag after a comparison. -/
def comparison (x y : UInt8) : Flag :=
  if x < y then .less else if y < x then .greater else .equal

/-- The value an operation leaves in its first register. -/
def result (op : AluOp) (x y : UInt8) : UInt8 :=
  match op with
  | .add => .ofNat ((x.toNat + y.toNat) % 255)
  | .mul => .ofNat ((x.toNat * y.toNat) % 255)
  | .shl => .ofNat ((x.toNat * 2 ^ y.toNat) % 255)
  | .shr => .ofNat (x.toNat / 2 ^ y.toNat)
  | .mod => .ofNat (x.toNat % y.toNat)
  | .and => x &&& y
  | .or => x ||| y
  | .xor => x ^^^ y
  | .not => ~~~x
  | .cmp => x

/-! ## The rows -/

/-- The address behind an instruction, from the number of operand bytes in bits 7 and 6. -/
def behind (m : Machine) (op : Operation) : Nat :=
  m.pc + (1 + Layout.operandCount op.byte)

/-- The machine after an operation on the bytes `a` and `b`, before it is counted. -/
def transition (m : Machine) (op : Operation) (a b : UInt8) : Machine :=
  let x := value m.registers a
  let y := value m.registers b
  let sp := m.stackPointer
  match op with
  | .alu .cmp => { m with flag := comparison x y, pc := behind m op }
  | .alu op' => { m with registers := assign m.registers a (result op' x y), pc := behind m op }
  | .data .hlt => { m with status := .halted, pc := behind m op }
  | .data .ldi => { m with registers := assign m.registers a b, pc := behind m op }
  | .data .prn => { m with pc := behind m op }
  | .data .push => { m with
      memory := store m.memory (sp - 1).toNat x
      registers := m.registers.set .sp (sp - 1)
      pc := behind m op }
  | .data .pop => { m with
      registers := assign (m.registers.set .sp (sp + 1)) a (cell m.memory sp.toNat)
      pc := behind m op }
  -- the target of a call is read when the stack pointer has been lowered
  | .transfer .call => { m with
      memory := store m.memory (sp - 1).toNat (.ofNat (m.pc + 2))
      registers := m.registers.set .sp (sp - 1)
      pc := (value (m.registers.set .sp (sp - 1)) a).toNat }
  | .transfer .ret => { m with
      registers := m.registers.set .sp (sp + 1)
      pc := (cell m.memory sp.toNat).toNat }
  | .transfer .jmp => { m with pc := x.toNat }
  | .transfer .jeq => { m with pc := if m.flag = .equal then x.toNat else m.pc + 2 }
  | .transfer .jne => { m with pc := if m.flag = .equal then m.pc + 2 else x.toNat }

/-- The machine after an operation. -/
def next (m : Machine) (op : Operation) (a b : UInt8) : Machine :=
  { transition m op a b with steps := m.steps + 1 }

/-- The value an operation prints. -/
def printed (m : Machine) (op : Operation) (a : UInt8) : Option UInt8 :=
  if op = .data .prn then some (value m.registers a) else none

/-! ## Refusals -/

/-- The fault unless a condition holds. -/
def require (condition : Prop) [Decidable condition] (fault : Fault) : Option Fault :=
  if condition then none else some fault

@[simp] theorem require_eq_none {condition : Prop} [Decidable condition] {fault : Fault} :
    require condition fault = none ↔ condition := by
  simp [require]

@[simp] theorem require_eq_some {condition : Prop} [Decidable condition] {fault f : Fault} :
    require condition fault = some f ↔ ¬ condition ∧ fault = f := by
  by_cases h : condition <;> simp [require, h]

/-- A register operand has to name a register. -/
def registerRefusal (byte : UInt8) : Option Fault :=
  require (byte.toNat < 8) (.invalidRegister byte)

/-- A push needs a cell below the stack pointer. -/
def pushRefusal (m : Machine) : Option Fault :=
  require (m.stackPointer ≠ 0) .stackOverflow

/-- A pop needs an address above the stack pointer. -/
def popRefusal (m : Machine) : Option Fault :=
  require (m.stackPointer ≠ 255) .stackUnderflow

/-- The first reason to refuse an operation. -/
def refusal (m : Machine) (op : Operation) (a b : UInt8) : Option Fault :=
  match op with
  | .alu .not => registerRefusal a
  | .alu op => (registerRefusal a).or <| (registerRefusal b).or <|
      require (¬ (op = .mod ∧ value m.registers b = 0)) .divideByZero
  | .transfer .call => (require (m.pc + 2 < 256) (.addressOutOfRange (m.pc + 2))).or <|
      (registerRefusal a).or (pushRefusal m)
  | .transfer .ret => popRefusal m
  | .transfer .jmp => registerRefusal a
  | .transfer .jeq => if m.flag = .equal then registerRefusal a else none
  | .transfer .jne => if m.flag = .equal then none else registerRefusal a
  | .data .hlt => none
  | .data .ldi => registerRefusal a
  | .data .prn => registerRefusal a
  | .data .push => (registerRefusal a).or (pushRefusal m)
  | .data .pop => (registerRefusal a).or (popRefusal m)

/-- What the instruction at the program counter leaves, or why it is refused. -/
def advance (m : Machine) : Except Fault Effect := do
  let i ← m.fetch
  match refusal m i.op i.a i.b with
  | some fault => .error fault
  | none => .ok ⟨next m i.op i.a i.b, printed m i.op i.a⟩

/-! ## What registers and cells hold -/

theorem registerRefusal_eq_none {byte : UInt8} : registerRefusal byte = none ↔ byte.toNat < 8 := by
  simp [registerRefusal, require]

theorem read_of_registerRefusal {byte : UInt8} (h : registerRefusal byte = none)
    (registers : Registers) : registers.read byte = .ok (value registers byte) := by
  have named : byte.toNat < 8 := registerRefusal_eq_none.1 h
  simp [value, Registers.read, Register.ofByte, named, Except.map, Except.toOption]

theorem write_of_registerRefusal {byte : UInt8} (h : registerRefusal byte = none)
    (registers : Registers) (v : UInt8) :
    registers.write byte v = .ok (assign registers byte v) := by
  have named : byte.toNat < 8 := registerRefusal_eq_none.1 h
  simp [assign, Registers.write, Register.ofByte, named, Except.map, Except.toOption]

theorem ofByte_of_registerRefusal {byte : UInt8} {fault : Fault}
    (h : registerRefusal byte = some fault) : Register.ofByte byte = .error fault := by
  unfold registerRefusal require at h
  split at h
  · cases h
  · next unnamed =>
    cases h
    simp [Register.ofByte, unnamed]

theorem read_error_of_registerRefusal {byte : UInt8} {fault : Fault}
    (h : registerRefusal byte = some fault) (registers : Registers) :
    registers.read byte = .error fault := by
  simp [Registers.read, ofByte_of_registerRefusal h, Except.map]

theorem write_error_of_registerRefusal {byte : UInt8} {fault : Fault}
    (h : registerRefusal byte = some fault) (registers : Registers) (v : UInt8) :
    registers.write byte v = .error fault := by
  simp [Registers.write, ofByte_of_registerRefusal h, Except.map]

theorem cell_of_lt (memory : Memory) {address : Nat} (h : address < Memory.size) :
    cell memory address = memory.cells[address] := by
  simp [cell, Memory.read_of_lt h, Except.toOption]

theorem cell_of_read {memory : Memory} {address : Nat} {v : UInt8}
    (h : memory.read address = .ok v) : cell memory address = v := by
  simp [cell, h, Except.toOption]

theorem store_of_lt (memory : Memory) {address : Nat} (h : address < Memory.size) (v : UInt8) :
    store memory address v = ⟨memory.cells.set address v⟩ := by
  simp [store, Memory.write_of_lt h, Except.toOption]

theorem cell_store_self (memory : Memory) {address : Nat} (h : address < Memory.size) (v : UInt8) :
    cell (store memory address v) address = v := by
  simp [store_of_lt _ h, cell_of_lt _ h]

theorem cell_store_of_ne (memory : Memory) {address other : Nat} (ne : other ≠ address)
    (v : UInt8) : cell (store memory address v) other = cell memory other := by
  unfold store
  cases written : memory.write address v with
  | error fault => rfl
  | ok memory' =>
    have kept : memory'.read other = memory.read other := Memory.read_write_of_ne written ne
    simp [cell, Except.toOption, kept]

@[simp] theorem value_seven (registers : Registers) : value registers 7 = registers.get .sp := rfl

@[simp] theorem assign_seven (registers : Registers) (v : UInt8) :
    assign registers 7 v = registers.set .sp v := rfl

/-- A register keeps its value when a byte that does not name it is assigned to. -/
theorem get_assign_of_ne (registers : Registers) {byte : UInt8} {r : Register}
    (ne : byte.toNat ≠ r) (v : UInt8) : (assign registers byte v).get r = registers.get r := by
  unfold assign Registers.write Register.ofByte
  split
  · next named =>
    have other : (⟨byte.toNat, named⟩ : Register) ≠ r := fun same => ne (Fin.ext_iff.1 same)
    simp [Except.map, Except.toOption, Registers.get_set_of_ne _ other]
  · rfl

theorem read_assign_self {registers : Registers} {byte : UInt8}
    (named : registerRefusal byte = none) (v : UInt8) :
    (assign registers byte v).read byte = .ok v := by
  have h : byte.toNat < 8 := registerRefusal_eq_none.1 named
  simp [assign, Registers.write, Registers.read, Register.ofByte, h, Except.map, Except.toOption]

/-! ## Rows of a kind -/

theorem refusal_alu (m : Machine) (op : AluOp) (a b : UInt8) :
    refusal m (.alu op) a b = (registerRefusal a).or (if op = .not then none else
      (registerRefusal b).or (require (¬ (op = .mod ∧ value m.registers b = 0)) .divideByZero)) := by
  cases op <;> simp [refusal]

theorem transition_alu (m : Machine) (op : AluOp) (a b : UInt8) :
    transition m (.alu op) a b = { m with
      registers := if op = .cmp then m.registers else
        assign m.registers a (result op (value m.registers a) (value m.registers b))
      flag := if op = .cmp then comparison (value m.registers a) (value m.registers b) else m.flag
      pc := behind m (.alu op) } := by
  cases op <;> rfl

theorem transition_steps (m : Machine) (op : Operation) (a b : UInt8) :
    (transition m op a b).steps = m.steps := by
  cases op with
  | alu op => rw [transition_alu]
  | transfer op => cases op <;> rfl
  | data op => cases op <;> rfl

/-- Only the halt touches the status. -/
theorem status_next (m : Machine) (op : Operation) (a b : UInt8) :
    (next m op a b).status = if op = .data .hlt then .halted else m.status := by
  cases op with
  | alu op => cases op <;> rfl
  | transfer op => cases op <;> rfl
  | data op => cases op <;> rfl

/-- Only a comparison touches the flag. -/
theorem flag_next (m : Machine) (op : Operation) (a b : UInt8) :
    (next m op a b).flag =
      if op = .alu .cmp then comparison (value m.registers a) (value m.registers b)
      else m.flag := by
  cases op with
  | alu op => cases op <;> rfl
  | transfer op => cases op <;> rfl
  | data op => cases op <;> rfl

end Manual

end EightBit
