/-
# EightBit.Proofs.Operands -- operands that name no register

The encoding of an operation says which of its operand bytes are indices of registers
(`Operation.registerOperands`), and there are eight registers.  An operation checks these operands
before anything else, and only a call checks one thing more before them
(`exists_operationChecks_eq`), so an index above 7 stops the step and nothing has changed by then.

There is one way past the check: a conditional jump that is not taken never looks at its operand
(`rows_of_notTaken`), so it goes on behind an operand that its taken twin stops at.
-/
import EightBit.Proofs.Checks

namespace EightBit

open Manual Check

set_option autoImplicit false

namespace Operation

/-- The operand bytes that are indices of registers. -/
def registerOperands (op : Operation) (a b : UInt8) : List UInt8 :=
  match op with
  | .alu .not => [a]
  | .alu _ => [a, b]
  | .transfer .ret => []
  | .transfer _ => [a]
  | .data .hlt => []
  | .data _ => [a]

/-- The operation is a conditional jump that is not taken with this flag. -/
def NotTaken (op : Operation) (flag : Flag) : Prop :=
  op = .transfer .jeq ∧ flag ≠ .equal ∨ op = .transfer .jne ∧ flag = .equal

end Operation

namespace Machine

variable {σ : Type}

/-! ## The operands among the checks -/

/-- What a call checks before its register: there has to be a return address. -/
def returnChecks (m : Machine) (op : Operation) : List Check :=
  if op = .transfer .call then [⟨m.pc + 2 = 256, .addressOutOfRange 256⟩] else []

/-- An operation checks its register operands in order, and only a call something before them. -/
theorem exists_operationChecks_eq {m : Machine} {op : Operation} (taken : ¬ op.NotTaken m.flag)
    (a b : UInt8) :
    ∃ later, operationChecks m op a b =
      returnChecks m op ++ (op.registerOperands a b).map registerCheck ++ later := by
  cases op with
  | alu op => cases op <;> exact ⟨_, rfl⟩
  | transfer op =>
    cases op with
    | call | ret | jmp => exact ⟨_, rfl⟩
    | jeq =>
      have equal : m.flag = .equal := by simpa [Operation.NotTaken] using taken
      exact ⟨[], by simp [operationChecks, equal, returnChecks, Operation.registerOperands]⟩
    | jne =>
      have differs : m.flag ≠ .equal := by simpa [Operation.NotTaken] using taken
      exact ⟨[], by simp [operationChecks, differs, returnChecks, Operation.registerOperands]⟩
  | data op => cases op <;> exact ⟨_, rfl⟩

theorem exists_unnamed_of_raises {operands : List UInt8} {fault : Fault}
    (raises : Raises (operands.map registerCheck) fault) :
    ∃ r ∈ operands, 8 ≤ r.toNat ∧ fault = .invalidRegister r := by
  induction operands with
  | nil => exact absurd raises not_raises_nil
  | cons r rest ih =>
    rcases raises with ⟨unnamed, rfl⟩ | ⟨-, raises⟩
    · exact ⟨r, List.mem_cons_self, unnamed, rfl⟩
    · obtain ⟨r', operand, unnamed, fault_eq⟩ := ih raises
      exact ⟨r', List.mem_cons_of_mem r operand, unnamed, fault_eq⟩

/-- An operand that names no register fails a check, and no later check counts. -/
theorem exists_raises_of_unnamed {m : Machine} {op : Operation} {a b : UInt8}
    (taken : ¬ op.NotTaken m.flag) (unnamed : ∃ r ∈ op.registerOperands a b, 8 ≤ r.toNat) :
    ∃ fault, Raises (operationChecks m op a b) fault ∧
      ((∃ r ∈ op.registerOperands a b, 8 ≤ r.toNat ∧ fault = .invalidRegister r) ∨
        op = .transfer .call ∧ m.pc + 2 = 256 ∧ fault = .addressOutOfRange 256) := by
  obtain ⟨later, checks_eq⟩ := exists_operationChecks_eq taken a b
  rcases passes_or_exists_raises (operationChecks m op a b) with passes | ⟨fault, raises⟩
  · obtain ⟨r, operand, beyond⟩ := unnamed
    have checked : registerCheck r ∈ operationChecks m op a b := by
      rw [checks_eq]
      simp [List.mem_map_of_mem operand]
    exact absurd beyond (passes _ checked)
  · refine ⟨fault, raises, ?_⟩
    rw [checks_eq, raises_append, raises_append] at raises
    rcases raises with (no_return | ⟨-, raises⟩) | ⟨passes, -⟩
    · right
      unfold returnChecks at no_return
      split at no_return
      · next call => simpa [call] using no_return
      · exact absurd no_return not_raises_nil
    · exact .inl (exists_unnamed_of_raises raises)
    · obtain ⟨r, operand, beyond⟩ := unnamed
      exact absurd beyond ((passes_append.1 passes).2 _ (List.mem_map_of_mem operand))

/-! ## Steps -/

/-- A jump that is not taken goes on behind its operand, whatever that is. -/
theorem rows_of_notTaken {m : Machine} {op : Operation} (untaken : op.NotTaken m.flag)
    (a b : UInt8) :
    refusal m op a b = none ∧ printed m op a = none ∧
      next m op a b = { m with pc := m.pc + 2, steps := m.steps + 1 } := by
  rcases untaken with ⟨rfl, differs⟩ | ⟨rfl, equal⟩
  · exact ⟨by simp [refusal, differs], rfl, by simp [next, transition, differs]⟩
  · exact ⟨by simp [refusal, equal], rfl, by simp [next, transition, equal]⟩

/-- An instruction is fetched if its byte decodes and the operands it declares lie in memory. -/
theorem exists_fetch_of_inside {m : Machine} {byte : UInt8} {op : Operation}
    (read : m.memory.read m.pc = .ok byte) (decoded : Operation.decode? byte = some op)
    (inside : m.pc + Layout.width byte ≤ 256) : ∃ a b, m.fetch = .ok ⟨op.byte, op, a, b⟩ := by
  have start : m.pc < 256 := Memory.lt_of_read read
  have byte_eq : cell m.memory m.pc = byte := cell_of_read read
  have passes : Passes (fetchChecks m) := by
    rw [Layout.width] at inside
    simp only [fetchChecks, byte_eq, decoded, passes_cons, passes_nil, and_true]
    exact ⟨Nat.ne_of_lt start, by simp, by omega⟩
  obtain ⟨op', a, b, decoded', fetched⟩ := fetch_of_passes (Nat.le_of_lt start) passes
  rw [byte_eq, decoded] at decoded'
  obtain rfl := Option.some.inj decoded'
  exact ⟨a, b, fetched⟩

variable [Writer σ]

/-- **A register that does not exist.**  Let the next instruction lie in memory and one of its
register operands name no register.  Unless it is a conditional jump that is not taken, the step
ends in a fault and leaves machine and sink alone; the fault names such an operand, or it is that of
a call without a return address.  A conditional jump that is not taken goes on all the same. -/
theorem step_of_unnamed_operand {m : Machine} {byte : UInt8} {op : Operation}
    (running : m.status = .running) (read : m.memory.read m.pc = .ok byte)
    (decoded : Operation.decode? byte = some op) (inside : m.pc + Layout.width byte ≤ 256)
    (unnamed : ∃ r ∈ op.registerOperands (cell m.memory (m.pc + 1)) (cell m.memory (m.pc + 2)),
      8 ≤ r.toNat) (sink : σ) :
    (¬ op.NotTaken m.flag →
      ∃ fault, m.step sink = ⟨.error fault, m, sink⟩ ∧
        ((∃ r ∈ op.registerOperands (cell m.memory (m.pc + 1)) (cell m.memory (m.pc + 2)),
          8 ≤ r.toNat ∧ fault = .invalidRegister r) ∨
        op = .transfer .call ∧ m.pc + 2 = 256 ∧ fault = .addressOutOfRange 256)) ∧
    (op.NotTaken m.flag →
      m.step sink = ⟨.ok .running, { m with pc := m.pc + 2, steps := m.steps + 1 }, sink⟩) := by
  obtain ⟨a, b, fetched⟩ := exists_fetch_of_inside read decoded inside
  constructor
  · intro taken
    obtain ⟨fault, raises, named⟩ := exists_raises_of_unnamed taken unnamed
    have refused := (decidedBy_operationChecks (end_le_of_fetch fetched) fault).2 raises
    exact ⟨fault, step_of_fetch_of_refusal running fetched refused sink, named⟩
  · intro untaken
    obtain ⟨allowed, silent, after⟩ := rows_of_notTaken untaken (cell m.memory (m.pc + 1))
      (cell m.memory (m.pc + 2))
    rw [step_of_fetch_of_allowed running fetched allowed, silent, after, ← running]
    rfl

/-- A jump through a register that does not exist: taken it faults, not taken it goes on. -/
theorem jeq_unnamed_operand :
    let jump (flag : Flag) : Machine :=
      { memory := ⟨(Memory.zero.cells.set 0 0x55).set 1 9⟩, flag }
    (∃ fault, (jump .equal).step ({} : Sink) = ⟨.error fault, jump .equal, {}⟩) ∧
      (jump .less).step ({} : Sink) =
        ⟨.ok .running, { jump .less with pc := 2, steps := 1 }, {}⟩ := by
  intro jump
  have decoded : Operation.decode? 0x55 = some (.transfer .jeq) := by decide
  have inside : 0 + Layout.width 0x55 ≤ 256 := by decide
  have read (flag : Flag) : (jump flag).memory.read 0 = .ok 0x55 := by
    simp only [jump]
    rfl
  have unnamed (flag : Flag) : ∃ r ∈ (Operation.transfer .jeq).registerOperands
      (cell (jump flag).memory 1) (cell (jump flag).memory 2), 8 ≤ r.toNat :=
    ⟨9, by simp only [jump]; exact List.mem_singleton.2 rfl, by decide⟩
  have taken := (step_of_unnamed_operand (m := jump .equal) rfl (read _) decoded inside (unnamed _)
    ({} : Sink)).1 (by simp [Operation.NotTaken, jump])
  have untaken := (step_of_unnamed_operand (m := jump .less) rfl (read _) decoded inside (unnamed _)
    ({} : Sink)).2 (.inl ⟨rfl, by simp [jump]⟩)
  obtain ⟨fault, faulted, -⟩ := taken
  exact ⟨⟨fault, faulted⟩, untaken⟩

/-- So a step can succeed, and move on, at an operand that names no register. -/
theorem jeq_unnamed_not_taken :
    let m : Machine := { memory := ⟨(Memory.zero.cells.set 0 0x55).set 1 9⟩ }
    m.status = .running ∧ m.memory.read m.pc = .ok 0x55 ∧
      Operation.decode? 0x55 = some (.transfer .jeq) ∧ m.pc + Layout.width 0x55 ≤ 256 ∧
      (∃ r ∈ (Operation.transfer .jeq).registerOperands (cell m.memory (m.pc + 1))
        (cell m.memory (m.pc + 2)), 8 ≤ r.toNat) ∧
      (m.step ({} : Sink)).result = .ok .running ∧ (m.step ({} : Sink)).machine ≠ m := by
  intro m
  refine ⟨rfl, ?_, by decide, by decide, ⟨9, ?_, by decide⟩, ?_, ?_⟩
  · simp only [m]
    rfl
  · simp only [m]
    exact List.mem_singleton.2 rfl
  · simp only [m]
    rfl
  · have moved : (m.step ({} : Sink)).machine.pc = 2 := by
      simp only [m]
      rfl
    intro same
    rw [same] at moved
    cases moved

end Machine

end EightBit
