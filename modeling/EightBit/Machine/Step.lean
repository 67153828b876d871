/-
# EightBit.Machine.Step -- carrying out instructions

A step fetches the byte at the program counter, decodes it, reads the operand bytes it declares and
carries the operation out.  Each of these may fault, and the first fault decides; an operand that is
not declared counts as zero.

An instruction works in place on the machine and on the writer it prints to
(`Machine.instruction`).  The registers it names are looked up before anything changes, so a pop
into a register that does not exist leaves the stack alone.  Steps are repeated until the machine
halts or faults (`Machine.run`).
-/
import EightBit.Alu
import EightBit.Machine
import EightBit.Sink

namespace EightBit

set_option autoImplicit false

/-- An instruction in memory: its first byte, the operation that stands for, and its operands. -/
structure Instruction where
  byte : UInt8
  op : Operation
  a : UInt8
  b : UInt8
  deriving DecidableEq, Repr

namespace Machine

open Procedure

variable {σ : Type} {α : Type}

/-! ## Fetching -/

/-- The operand in a slot behind the instruction `byte`: the byte there if the instruction declares
it, and zero otherwise. -/
def operand (m : Machine) (byte : UInt8) (slot : Nat) : Except Fault UInt8 :=
  if slot < Layout.operandCount byte then m.memory.read (m.pc + 1 + slot) else .ok 0

/-- The instruction at the program counter. -/
def fetch (m : Machine) : Except Fault Instruction := do
  let byte ← m.memory.read m.pc
  let op ← Operation.decode byte m.pc
  let a ← m.operand byte 0
  let b ← m.operand byte 1
  return { byte, op, a, b }

/-! ## Parts of instructions -/

def onAlu (proc : Procedure (Registers × Flag) α) : Procedure Machine α :=
  within (fun m => (m.registers, m.flag))
    (fun (registers, flag) m => { m with registers, flag }) proc

def onMachine (proc : Procedure Machine α) : Procedure (Machine × σ) α :=
  within Prod.fst (fun m (_, sink) => (m, sink)) proc

/-- The value of the register a byte names. -/
def register (byte : UInt8) : Procedure Machine UInt8 := do
  orFault ((← get).registers.read byte)

def setRegister (byte value : UInt8) : Procedure Machine Unit := do
  let registers ← orFault ((← get).registers.write byte value)
  modify ({ · with registers })

def goTo (pc : Nat) : Procedure Machine Unit :=
  modify ({ · with pc })

def count : Procedure Machine Unit :=
  modify fun m => { m with steps := m.steps + 1 }

def print [Writer σ] (value : UInt8) : Procedure (Machine × σ) Unit := fun (m, sink) =>
  match Writer.print sink value with
  | (.ok (), sink) => .ok () (m, sink)
  | (.error cause, sink) => .error (.output cause) (m, sink)

/-! ## Operations -/

/-- The byte that stands for a return address on the stack. -/
def returnAddress (address : Nat) : Except Fault UInt8 :=
  if address < 256 then .ok (UInt8.ofNat address) else .error (.addressOutOfRange address)

/-- Where a control transfer goes, if it does not go on at `next`.  A call looks its register up
before the push and reads it after the push. -/
def destination (op : TransferOp) (a : UInt8) (next : Nat) : Procedure Machine (Option UInt8) := do
  match op with
  | .call =>
    let back ← orFault (returnAddress next)
    let _ ← register a
    push back
    return some (← register a)
  | .ret => return some (← pop)
  | .jmp => return some (← register a)
  | .jeq => if (← get).flag.isEqual then return some (← register a) else return none
  | .jne => if (← get).flag.isEqual then return none else return some (← register a)

/-- Carry out a control transfer and say whether it placed the program counter. -/
def transfer (op : TransferOp) (a : UInt8) (next : Nat) : Procedure Machine Bool := do
  match ← destination op a next with
  | some target =>
    goTo target.toNat
    return true
  | none => return false

/-- Carry out a data operation.  A pop looks its register up before it takes the value. -/
def transact [Writer σ] (op : DataOp) (a b : UInt8) : Procedure (Machine × σ) Unit := do
  match op with
  | .hlt => onMachine (modify ({ · with status := .halted }))
  | .ldi => onMachine (setRegister a b)
  | .prn => print (← onMachine (register a))
  | .push => onMachine do push (← register a)
  | .pop => onMachine do
    let _ ← register a
    setRegister a (← pop)

/-- Carry out an operation of any group and say whether it placed the program counter. -/
def operate [Writer σ] (op : Operation) (a b : UInt8) (next : Nat) :
    Procedure (Machine × σ) Bool := do
  match op with
  | .alu op =>
    onMachine (onAlu (Alu.apply op a b))
    return false
  | .transfer op => onMachine (transfer op a next)
  | .data op =>
    transact op a b
    return false

/-! ## One instruction -/

/-- Carry out a fetched instruction and count it; the program counter goes behind it unless the
operation has placed it. -/
def execute [Writer σ] (i : Instruction) : Procedure (Machine × σ) Status := do
  let next := (← get).1.pc + Layout.width i.byte
  let placed ← operate i.op i.a i.b next
  unless placed do
    onMachine (goTo next)
  onMachine count
  return (← get).1.status

/-- Fetch and carry out the next instruction; a halted machine has none. -/
def instruction [Writer σ] : Procedure (Machine × σ) Status := do
  let (m, _) ← get
  if m.isHalted then
    return .halted
  execute (← orFault m.fetch)

/-! ## Steps and runs on a sink -/

/-- How something went on a machine and a sink, and what it left of both. -/
structure Outcome (ρ : Type) (σ : Type := Sink) where
  result : ρ
  machine : Machine
  sink : σ

def Outcome.of : EStateM.Result Fault (Machine × σ) α → Outcome (Except Fault α) σ
  | .ok a (machine, sink) => ⟨.ok a, machine, sink⟩
  | .error fault (machine, sink) => ⟨.error fault, machine, sink⟩

def step [Writer σ] (m : Machine) (sink : σ) : Outcome (Except Fault Status) σ :=
  .of (instruction (m, sink))

/-- Step until the machine halts or faults, `bound` times at most; the result is `none` when it is
still running after that. -/
def run [Writer σ] (bound : Nat) (m : Machine) (sink : σ) :
    Outcome (Option (Except Fault Unit)) σ :=
  match bound with
  | 0 => ⟨none, m, sink⟩
  | bound + 1 =>
    match m.step sink with
    | ⟨.ok .running, m, sink⟩ => run bound m sink
    | ⟨.ok .halted, m, sink⟩ => ⟨some (.ok ()), m, sink⟩
    | ⟨.error fault, m, sink⟩ => ⟨some (.error fault), m, sink⟩

end Machine

end EightBit
