/-
# EightBit.Proofs.Step -- a step carries out the manual's row

An instruction changes the machine in place, piece by piece, and may fault in between.  Here each
piece gets one equation that says what it does to the state it works on, and the equations are put
together to `step_cases`: a step either does everything the row of its instruction says, or leaves
the machine alone.  Later modules use `step_cases` and never look into an instruction again.
-/
import EightBit.Proofs.Arithmetic

namespace EightBit

open Procedure Manual

set_option autoImplicit false

/-! ## The unit -/

namespace Alu

theorem apply_of_first_refused {a : UInt8} {fault : Fault} (h : registerRefusal a = some fault)
    (op : AluOp) (b : UInt8) (s : Registers × Flag) : apply op a b s = .error fault s := by
  simp [apply, read_error_of_registerRefusal h]

theorem apply_of_second_refused {op : AluOp} {a b : UInt8} {fault : Fault}
    (ha : registerRefusal a = none) (binary : op ≠ .not) (hb : registerRefusal b = some fault)
    (s : Registers × Flag) : apply op a b s = .error fault s := by
  simp [apply, read_of_registerRefusal ha, binary, read_error_of_registerRefusal hb]

/-- With its registers there, the unit does what it computes. -/
theorem apply_of_registers {op : AluOp} {a b : UInt8} (ha : registerRefusal a = none)
    (hb : op = .not ∨ registerRefusal b = none) (registers : Registers) (flag : Flag) :
    apply op a b (registers, flag) =
      if op = .mod ∧ value registers b = 0 then .error .divideByZero (registers, flag)
      else if op = .cmp then
        .ok () (registers, comparison (value registers a) (value registers b))
      else
        .ok () (assign registers a (result op (value registers a) (value registers b)), flag) := by
  by_cases unary : op = .not
  · subst unary
    simp [apply, read_of_registerRefusal ha, write_of_registerRefusal ha, compute_eq, result]
  · have read_b := read_of_registerRefusal (hb.resolve_left unary) registers
    by_cases zero : op = .mod ∧ value registers b = 0
    · simp [apply, read_of_registerRefusal ha, read_b, compute_eq, zero]
    · by_cases compares : op = .cmp
      · subst compares
        simp [apply, read_of_registerRefusal ha, read_b, compute_eq]
      · simp [apply, read_of_registerRefusal ha, write_of_registerRefusal ha, unary, read_b,
          compute_eq, zero, compares]

end Alu

namespace Machine

variable {σ : Type}

/-! ## Parts of instructions -/

@[simp] theorem onMachine_apply {α : Type} (proc : Procedure Machine α) (m : Machine) (sink : σ) :
    onMachine proc (m, sink) = match proc m with
      | .ok a m => .ok a (m, sink)
      | .error fault m => .error fault (m, sink) := by
  cases h : proc m <;> simp only [onMachine, within, h]

theorem onAlu_apply {α : Type} (proc : Procedure (Registers × Flag) α) (m : Machine) :
    onAlu proc m = match proc (m.registers, m.flag) with
      | .ok a (registers, flag) => .ok a { m with registers, flag }
      | .error fault (registers, flag) => .error fault { m with registers, flag } := by
  cases h : proc (m.registers, m.flag) <;> simp only [onAlu, within, h]

@[simp] theorem goTo_apply (pc : Nat) (m : Machine) : goTo pc m = .ok () { m with pc } := rfl

@[simp] theorem count_apply (m : Machine) :
    count m = .ok () { m with steps := m.steps + 1 } := rfl

theorem register_of_allowed {byte : UInt8} (h : registerRefusal byte = none) (m : Machine) :
    register byte m = .ok (value m.registers byte) m := by
  simp [register, read_of_registerRefusal h]

theorem register_of_refusal {byte : UInt8} {fault : Fault} (h : registerRefusal byte = some fault)
    (m : Machine) : register byte m = .error fault m := by
  simp [register, read_error_of_registerRefusal h]

theorem setRegister_of_allowed {byte : UInt8} (h : registerRefusal byte = none) (v : UInt8)
    (m : Machine) :
    setRegister byte v m = .ok () { m with registers := assign m.registers byte v } := by
  simp [setRegister, write_of_registerRefusal h]

theorem setRegister_of_refusal {byte : UInt8} {fault : Fault}
    (h : registerRefusal byte = some fault) (v : UInt8) (m : Machine) :
    setRegister byte v m = .error fault m := by
  simp [setRegister, write_error_of_registerRefusal h]

theorem push_of_allowed {m : Machine} (h : pushRefusal m = none) (v : UInt8) :
    push v m = .ok () { m with
      memory := store m.memory (m.stackPointer - 1).toNat v
      registers := m.registers.set .sp (m.stackPointer - 1) } := by
  rw [push_of_stackPointer_ne (require_eq_none.1 h), store_of_lt _ (UInt8.toNat_lt _)]

theorem push_of_refusal {m : Machine} {fault : Fault} (h : pushRefusal m = some fault) (v : UInt8) :
    push v m = .error fault m := by
  obtain ⟨empty, rfl⟩ := require_eq_some.1 h
  exact push_of_stackPointer_eq (Decidable.not_not.1 empty) v

theorem pop_of_allowed {m : Machine} (h : popRefusal m = none) :
    pop m = .ok (cell m.memory m.stackPointer.toNat)
      { m with registers := m.registers.set .sp (m.stackPointer + 1) } := by
  rw [pop_of_stackPointer_ne (require_eq_none.1 h), cell_of_lt _ (UInt8.toNat_lt _)]
  rfl

theorem pop_of_refusal {m : Machine} {fault : Fault} (h : popRefusal m = some fault) :
    pop m = .error fault m := by
  obtain ⟨empty, rfl⟩ := require_eq_some.1 h
  exact pop_of_stackPointer_eq (Decidable.not_not.1 empty)

theorem returnAddress_of_lt {address : Nat} (h : address < 256) :
    returnAddress address = .ok (.ofNat address) := by
  simp [returnAddress, h]

/-! ## The unit's operations -/

theorem onAlu_of_refusal {m : Machine} {op : AluOp} {a b : UInt8} {fault : Fault}
    (h : refusal m (.alu op) a b = some fault) : onAlu (Alu.apply op a b) m = .error fault m := by
  rw [refusal_alu] at h
  rcases Option.or_eq_some_iff.1 h with unnamed | ⟨named, h⟩
  · simp [onAlu_apply, Alu.apply_of_first_refused unnamed]
  · by_cases unary : op = .not
    · simp [unary] at h
    · rw [if_neg unary] at h
      rcases Option.or_eq_some_iff.1 h with unnamed_b | ⟨named_b, h⟩
      · simp [onAlu_apply, Alu.apply_of_second_refused named unary unnamed_b]
      · obtain ⟨zero, rfl⟩ := require_eq_some.1 h
        simp [onAlu_apply, Alu.apply_of_registers named (.inr named_b), Decidable.not_not.1 zero]

theorem onAlu_of_allowed {m : Machine} {op : AluOp} {a b : UInt8}
    (h : refusal m (.alu op) a b = none) :
    ∃ m', onAlu (Alu.apply op a b) m = .ok () m' ∧
      { m' with pc := m.pc + Layout.width op.byte } = transition m (.alu op) a b := by
  rw [refusal_alu] at h
  obtain ⟨named, h⟩ := Option.or_eq_none_iff.1 h
  rw [transition_alu]
  refine ⟨{ transition m (.alu op) a b with pc := m.pc }, ?_, by rw [transition_alu]; rfl⟩
  by_cases unary : op = .not
  · subst unary
    simp [onAlu_apply, Alu.apply_of_registers named, transition_alu]
  · rw [if_neg unary] at h
    obtain ⟨named_b, divisor⟩ := Option.or_eq_none_iff.1 h
    have nonzero := require_eq_none.1 divisor
    by_cases compares : op = .cmp
    · subst compares
      simp [onAlu_apply, Alu.apply_of_registers named (.inr named_b), transition_alu]
    · simp [onAlu_apply, Alu.apply_of_registers named (.inr named_b), transition_alu, nonzero,
        compares]

/-! ## Control transfers -/

theorem transfer_of_refusal {m : Machine} {op : TransferOp} {a b : UInt8} {fault : Fault}
    (h : refusal m (.transfer op) a b = some fault) :
    transfer op a (m.pc + Layout.width op.byte) m = .error fault m := by
  cases op with
  | call =>
    have width : Layout.width TransferOp.call.byte = 2 := rfl
    rcases Option.or_eq_some_iff.1 h with refused | ⟨near, h⟩
    · obtain ⟨far, rfl⟩ := require_eq_some.1 refused
      simp [transfer, destination, width, returnAddress, far]
    · have back := returnAddress_of_lt (require_eq_none.1 near)
      rcases Option.or_eq_some_iff.1 h with unnamed | ⟨named, h⟩
      · simp [transfer, destination, width, back, register_of_refusal unnamed]
      · simp [transfer, destination, width, back, register_of_allowed named, push_of_refusal h]
  | ret => simp [transfer, destination, pop_of_refusal h]
  | jmp => simp [transfer, destination, register_of_refusal h]
  | jeq =>
    by_cases equal : m.flag = .equal
    · have unnamed : registerRefusal a = some fault := by simpa [refusal, equal] using h
      simp [transfer, destination, (Flag.isEqual_iff _).2 equal, register_of_refusal unnamed]
    · simp [refusal, equal] at h
  | jne =>
    by_cases equal : m.flag = .equal
    · simp [refusal, equal] at h
    · have unnamed : registerRefusal a = some fault := by simpa [refusal, equal] using h
      have differs : m.flag.isEqual = false := by simpa [← Flag.isEqual_iff] using equal
      simp [transfer, destination, differs, register_of_refusal unnamed]

/-- A transfer that is not refused places the program counter, or leaves it to go behind the
instruction; either way the machine is then the one in the manual. -/
theorem transfer_of_allowed {m : Machine} {op : TransferOp} {a b : UInt8}
    (h : refusal m (.transfer op) a b = none) :
    ∃ placed m', transfer op a (m.pc + Layout.width op.byte) m = .ok placed m' ∧
      (if placed then m' else { m' with pc := m.pc + Layout.width op.byte }) =
        transition m (.transfer op) a b := by
  cases op with
  | call =>
    have width : Layout.width TransferOp.call.byte = 2 := rfl
    obtain ⟨near, h⟩ := Option.or_eq_none_iff.1 h
    obtain ⟨named, room⟩ := Option.or_eq_none_iff.1 h
    have back := returnAddress_of_lt (require_eq_none.1 near)
    refine ⟨true, transition m (.transfer .call) a b, ?_, rfl⟩
    simp [transfer, destination, width, back, register_of_allowed named, push_of_allowed room,
      transition]
  | ret =>
    refine ⟨true, transition m (.transfer .ret) a b, ?_, rfl⟩
    simp [transfer, destination, pop_of_allowed h, transition]
  | jmp =>
    refine ⟨true, transition m (.transfer .jmp) a b, ?_, rfl⟩
    simp [transfer, destination, register_of_allowed h, transition]
  | jeq =>
    by_cases equal : m.flag = .equal
    · have named : registerRefusal a = none := by simpa [refusal, equal] using h
      refine ⟨true, transition m (.transfer .jeq) a b, ?_, rfl⟩
      have taken : Flag.equal.isEqual = true := rfl
      simp [transfer, destination, taken, register_of_allowed named, transition, equal]
    · have differs : m.flag.isEqual = false := by simpa [← Flag.isEqual_iff] using equal
      refine ⟨false, m, by simp [transfer, destination, differs], ?_⟩
      simp [transition, equal]
      rfl
  | jne =>
    by_cases equal : m.flag = .equal
    · refine ⟨false, m, by simp [transfer, destination, (Flag.isEqual_iff _).2 equal], ?_⟩
      simp [transition, equal]
      rfl
    · have named : registerRefusal a = none := by simpa [refusal, equal] using h
      have differs : m.flag.isEqual = false := by simpa [← Flag.isEqual_iff] using equal
      refine ⟨true, transition m (.transfer .jne) a b, ?_, rfl⟩
      simp [transfer, destination, differs, register_of_allowed named, transition, equal]

/-! ## Data operations -/

theorem transact_of_refusal [Writer σ] {m : Machine} {op : DataOp} {a b : UInt8} {fault : Fault}
    (h : refusal m (.data op) a b = some fault) (sink : σ) :
    transact op a b (m, sink) = .error fault (m, sink) := by
  cases op with
  | hlt => cases h
  | ldi => simp [transact, setRegister_of_refusal h]
  | prn => simp [transact, register_of_refusal h]
  | push =>
    rcases Option.or_eq_some_iff.1 h with unnamed | ⟨named, h⟩
    · simp [transact, register_of_refusal unnamed]
    · simp [transact, register_of_allowed named, push_of_refusal h]
  | pop =>
    rcases Option.or_eq_some_iff.1 h with unnamed | ⟨named, h⟩
    · simp [transact, register_of_refusal unnamed]
    · simp [transact, register_of_allowed named, pop_of_refusal h]

theorem transact_of_allowed [Writer σ] {m : Machine} {op : DataOp} {a b : UInt8}
    (h : refusal m (.data op) a b = none) (silent : op ≠ .prn) (sink : σ) :
    ∃ m', transact op a b (m, sink) = .ok () (m', sink) ∧
      { m' with pc := m.pc + Layout.width op.byte } = transition m (.data op) a b := by
  cases op with
  | hlt => exact ⟨_, rfl, rfl⟩
  | ldi =>
    refine ⟨{ m with registers := assign m.registers a b }, ?_, rfl⟩
    simp [transact, setRegister_of_allowed h]
  | prn => contradiction
  | push =>
    obtain ⟨named, room⟩ := Option.or_eq_none_iff.1 h
    refine ⟨{ m with
      memory := store m.memory (m.stackPointer - 1).toNat (value m.registers a)
      registers := m.registers.set .sp (m.stackPointer - 1) }, ?_, rfl⟩
    simp [transact, register_of_allowed named, push_of_allowed room]
  | pop =>
    obtain ⟨named, room⟩ := Option.or_eq_none_iff.1 h
    refine ⟨{ m with
      registers := assign (m.registers.set .sp (m.stackPointer + 1)) a
        (cell m.memory m.stackPointer.toNat) }, ?_, rfl⟩
    simp [transact, register_of_allowed named, pop_of_allowed room, setRegister_of_allowed named]

theorem transact_prn [Writer σ] {m : Machine} {a b : UInt8}
    (h : refusal m (.data .prn) a b = none) (sink : σ) :
    transact .prn a b (m, sink) = print (value m.registers a) (m, sink) := by
  simp [transact, register_of_allowed h]

/-! ## Instructions -/

/-- Print a value, if there is one. -/
def printOn [Writer σ] (sink : σ) : Option UInt8 → Except SinkError Unit × σ
  | none => (.ok (), sink)
  | some v => Writer.print sink v

/-- An instruction is its operation, then the way behind it if that is still to go, and the count. -/
theorem execute_eq [Writer σ] (byte : UInt8) (op : Operation) (a b : UInt8) (m : Machine)
    (sink : σ) :
    execute ⟨byte, op, a, b⟩ (m, sink) =
      match operate op a b (m.pc + Layout.width byte) (m, sink) with
      | .ok placed (m', sink) =>
        let m' := if placed then m' else { m' with pc := m.pc + Layout.width byte }
        .ok m'.status ({ m' with steps := m'.steps + 1 }, sink)
      | .error fault s => .error fault s := by
  rcases operated : operate op a b (m.pc + Layout.width byte) (m, sink) with ⟨placed, m', sink'⟩ | _
  · cases placed <;> simp [execute, operated]
  · simp [execute, operated]

theorem execute_of_refusal [Writer σ] {m : Machine} {op : Operation} {a b : UInt8} {fault : Fault}
    (h : refusal m op a b = some fault) (sink : σ) :
    execute ⟨op.byte, op, a, b⟩ (m, sink) = .error fault (m, sink) := by
  cases op with
  | alu op => simp [execute_eq, operate, onAlu_of_refusal h]
  | transfer op => simp [execute_eq, operate, Operation.byte, transfer_of_refusal h]
  | data op => simp [execute_eq, operate, transact_of_refusal h sink]

/-- An instruction that is not refused prints its value, and if that is taken, leaves the machine
in the manual. -/
theorem execute_of_allowed [Writer σ] {m : Machine} {op : Operation} {a b : UInt8}
    (h : refusal m op a b = none) (sink : σ) :
    execute ⟨op.byte, op, a, b⟩ (m, sink) =
      match printOn sink (printed m op a) with
      | (.ok (), sink) => .ok (next m op a b).status (next m op a b, sink)
      | (.error cause, sink) => .error (.output cause) (m, sink) := by
  have counted : (transition m op a b).steps = m.steps := transition_steps m op a b
  rw [execute_eq]
  cases op with
  | alu op =>
    obtain ⟨m', done, after⟩ := onAlu_of_allowed h
    simp [operate, Operation.byte, done, printOn, printed, next, after, counted]
  | transfer op =>
    obtain ⟨placed, m', done, after⟩ := transfer_of_allowed h
    simp [operate, Operation.byte, done, printOn, printed, next, after, counted]
  | data op =>
    by_cases prints : op = .prn
    · subst prints
      rcases taken : Writer.print sink (value m.registers a) with ⟨cause | _, after⟩
      · simp [operate, transact_prn h sink, print, printOn, printed, taken]
      · simp [operate, transact_prn h sink, print, printOn, printed, taken, next, transition]
        rfl
    · obtain ⟨m', done, after⟩ := transact_of_allowed h prints sink
      simp [operate, Operation.byte, done, printOn, printed, next, after, counted, prints]

/-! ## Steps -/

theorem bind_eq_ok {ε α β : Type} {x : Except ε α} {f : α → Except ε β} {b : β} :
    x >>= f = .ok b ↔ ∃ a, x = .ok a ∧ f a = .ok b := by
  cases x <;> simp [bind, Except.bind]

theorem bind_eq_error {ε α β : Type} {x : Except ε α} {f : α → Except ε β} {e : ε} :
    x >>= f = .error e ↔ x = .error e ∨ ∃ a, x = .ok a ∧ f a = .error e := by
  cases x <;> simp [bind, Except.bind]

theorem map_eq_ok {ε α β : Type} {f : α → β} {x : Except ε α} {b : β} :
    x.map f = .ok b ↔ ∃ a, x = .ok a ∧ f a = b := by
  cases x <;> simp [Except.map]

theorem mapError_eq_ok {α ε ε' : Type} {f : ε → ε'} {x : Except ε α} {value : α} :
    x.mapError f = .ok value ↔ x = .ok value := by
  rcases x with cause | found
  · exact iff_of_false (fun h => by cases h) fun h => by cases h
  · constructor <;> intro h <;> obtain rfl := Except.ok.inj h <;> rfl

theorem mapError_eq_error {α ε ε' : Type} {f : ε → ε'} {x : Except ε α} {cause' : ε'} :
    x.mapError f = .error cause' ↔ ∃ cause, x = .error cause ∧ f cause = cause' := by
  rcases x with cause | found
  · constructor
    · intro h
      exact ⟨cause, rfl, Except.error.inj h⟩
    · rintro ⟨_, same, rfl⟩
      obtain rfl := Except.error.inj same
      rfl
  · exact iff_of_false (fun h => by cases h) fun ⟨_, h, _⟩ => by cases h

/-- What a fetch finds: the operation of the byte at the program counter, and its operands. -/
theorem fetch_eq_ok {m : Machine} {i : Instruction} (h : m.fetch = .ok i) :
    m.memory.read m.pc = .ok i.op.byte ∧ i.byte = i.op.byte ∧
      m.operand i.op.byte 0 = .ok i.a ∧ m.operand i.op.byte 1 = .ok i.b := by
  obtain ⟨byte, read, h⟩ := bind_eq_ok.1 h
  obtain ⟨op, decoded, h⟩ := bind_eq_ok.1 h
  obtain ⟨a, first, h⟩ := bind_eq_ok.1 h
  obtain ⟨b, second, h⟩ := bind_eq_ok.1 h
  cases h
  have encoded : op.byte = byte := by
    unfold Operation.decode at decoded
    split at decoded
    · next found =>
      cases decoded
      exact Operation.byte_of_decode? found
    · cases decoded
  exact ⟨encoded ▸ read, encoded.symm, encoded ▸ first, encoded ▸ second⟩

/-- An instruction is found exactly when there is an operation with its operands. -/
theorem exists_of_fetch_ok {m : Machine} {i : Instruction} (h : m.fetch = .ok i) :
    ∃ op a b, i = ⟨op.byte, op, a, b⟩ := by
  obtain ⟨byte, op, a, b⟩ := i
  obtain ⟨-, encoded, -⟩ := fetch_eq_ok h
  exact ⟨op, a, b, by simpa using encoded⟩

theorem advance_eq_ok {m : Machine} {e : Effect} (h : advance m = .ok e) :
    ∃ op a b, m.fetch = .ok ⟨op.byte, op, a, b⟩ ∧ refusal m op a b = none ∧
      e = ⟨next m op a b, printed m op a⟩ := by
  obtain ⟨i, fetched, h⟩ := bind_eq_ok.1 h
  obtain ⟨op, a, b, rfl⟩ := exists_of_fetch_ok fetched
  refine ⟨op, a, b, fetched, ?_⟩
  cases refused : refusal m op a b with
  | some f => simp [refused] at h
  | none => exact ⟨rfl, by simpa [refused, eq_comm] using h⟩

theorem advance_eq_error {m : Machine} {fault : Fault} (h : advance m = .error fault) :
    m.fetch = .error fault ∨
      ∃ op a b, m.fetch = .ok ⟨op.byte, op, a, b⟩ ∧ refusal m op a b = some fault := by
  cases fetched : m.fetch with
  | error f => exact .inl (by simpa [advance, fetched, bind, Except.bind] using h)
  | ok i =>
    obtain ⟨op, a, b, rfl⟩ := exists_of_fetch_ok fetched
    refine .inr ⟨op, a, b, rfl, ?_⟩
    cases refused : refusal m op a b with
    | some f => simpa [advance, fetched, refused, bind, Except.bind] using h
    | none => simp [advance, fetched, refused, bind, Except.bind] at h

theorem step_of_halted [Writer σ] {m : Machine} (h : m.status = .halted) (sink : σ) :
    m.step sink = ⟨.ok .halted, m, sink⟩ := by
  simp [step, instruction, isHalted, h, Outcome.of]

theorem step_of_fetch_ok [Writer σ] {m : Machine} {i : Instruction} (running : m.status = .running)
    (h : m.fetch = .ok i) (sink : σ) : m.step sink = .of (execute i (m, sink)) := by
  simp [step, instruction, isHalted, running, h]

/-- A refused instruction leaves machine and sink alone. -/
theorem step_of_advance_error [Writer σ] {m : Machine} {fault : Fault}
    (running : m.status = .running) (h : advance m = .error fault) (sink : σ) :
    m.step sink = ⟨.error fault, m, sink⟩ := by
  rcases advance_eq_error h with unfetched | ⟨op, a, b, fetched, refused⟩
  · simp [step, instruction, isHalted, running, unfetched, Outcome.of]
  · rw [step_of_fetch_ok running fetched, execute_of_refusal refused]
    rfl

/-- An instruction that is not refused takes effect as a whole if its value is taken, and otherwise
leaves the machine alone. -/
theorem step_of_advance_ok [Writer σ] {m : Machine} {e : Effect} (running : m.status = .running)
    (h : advance m = .ok e) (sink : σ) :
    m.step sink = match printOn sink e.printed with
      | (.ok (), sink) => ⟨.ok e.machine.status, e.machine, sink⟩
      | (.error cause, sink) => ⟨.error (.output cause), m, sink⟩ := by
  obtain ⟨op, a, b, fetched, allowed, rfl⟩ := advance_eq_ok h
  rw [step_of_fetch_ok running fetched, execute_of_allowed allowed]
  rcases printOn sink (printed m op a) with ⟨cause | _, after⟩ <;> rfl

/-- **All a step can do**: nothing on a halted machine; a refusal, which leaves everything alone; an
instruction as a whole; or an instruction whose value the sink does not take, which leaves the
machine alone. -/
theorem step_cases [Writer σ] (m : Machine) (sink : σ) :
    (m.status = .halted ∧ m.step sink = ⟨.ok .halted, m, sink⟩) ∨
    (m.status = .running ∧ ∃ fault, advance m = .error fault ∧
      m.step sink = ⟨.error fault, m, sink⟩) ∨
    (m.status = .running ∧ ∃ e after, advance m = .ok e ∧
      printOn sink e.printed = (.ok (), after) ∧
      m.step sink = ⟨.ok e.machine.status, e.machine, after⟩) ∨
    (m.status = .running ∧ ∃ e cause after, advance m = .ok e ∧
      printOn sink e.printed = (.error cause, after) ∧
      m.step sink = ⟨.error (.output cause), m, after⟩) := by
  cases status : m.status with
  | halted => exact .inl ⟨rfl, step_of_halted status sink⟩
  | running =>
    refine .inr ?_
    cases advanced : advance m with
    | error fault => exact .inl ⟨rfl, fault, rfl, step_of_advance_error status advanced sink⟩
    | ok e =>
      refine .inr ?_
      have stepped := step_of_advance_ok status advanced sink
      rcases taken : printOn sink e.printed with ⟨cause | _, after⟩
      · rw [taken] at stepped
        exact .inr ⟨rfl, e, cause, after, rfl, taken, stepped⟩
      · rw [taken] at stepped
        exact .inl ⟨rfl, e, after, rfl, taken, stepped⟩

/-- A successful step of a running machine carries out an instruction that is not refused. -/
theorem exists_next_of_step_ok [Writer σ] {m : Machine} {sink : σ} {status : Status}
    (running : m.status = .running) (h : (m.step sink).result = .ok status) :
    ∃ op a b, m.fetch = .ok ⟨op.byte, op, a, b⟩ ∧ refusal m op a b = none ∧
      ∃ after, printOn sink (printed m op a) = (.ok (), after) ∧
        m.step sink = ⟨.ok (next m op a b).status, next m op a b, after⟩ := by
  rcases step_cases m sink with ⟨halted, -⟩ | ⟨-, f, -, stepped⟩ |
      ⟨-, e, after, advanced, taken, stepped⟩ | ⟨-, e, cause, after, -, -, stepped⟩
  · simp [running] at halted
  · simp [stepped] at h
  · obtain ⟨op, a, b, fetched, allowed, rfl⟩ := advance_eq_ok advanced
    exact ⟨op, a, b, fetched, allowed, after, taken, stepped⟩
  · simp [stepped] at h

end Machine

end EightBit
