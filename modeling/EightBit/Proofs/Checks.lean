/-
# EightBit.Proofs.Checks -- which fault a step ends in

Several things can be wrong with an instruction at once: its bytes may run past the end of memory,
it may name registers that do not exist, and there may be no room on the stack.  A step looks for
them in a fixed order and ends in the fault of the first it meets.  That order is a list of checks
(`Machine.checks`): those of the fetch, those of the operation in its own order, and for a print
whether the sink takes all of the line.

The parts of a step are compared with the groups of checks they make: `fetch_of_raises` and
`fetch_of_passes` for the fetch, `decidedBy_operationChecks` for the operation, `printOn_of_raises`
and `printOn_of_passes` for the sink.  `step_checks` puts them together to what a step ends in.
-/
import EightBit.Proofs.Bounds

namespace EightBit

open Procedure Manual

set_option autoImplicit false

/-! ## Lists of checks -/

/-- A condition that stops an instruction, and the fault it is stopped with. -/
structure Check where
  fails : Prop
  fault : Fault

namespace Check

variable {first second : List Check} {fault : Fault}

/-- The first check that fails is one with this fault. -/
def Raises : List Check → Fault → Prop
  | [], _ => False
  | c :: rest, fault => c.fails ∧ fault = c.fault ∨ ¬ c.fails ∧ Raises rest fault

/-- No check fails. -/
def Passes (checks : List Check) : Prop :=
  ∀ c ∈ checks, ¬ c.fails

@[simp] theorem not_raises_nil : ¬ Raises [] fault := id

@[simp] theorem raises_cons {c : Check} :
    Raises (c :: first) fault ↔ c.fails ∧ fault = c.fault ∨ ¬ c.fails ∧ Raises first fault :=
  Iff.rfl

@[simp] theorem passes_nil : Passes [] := by
  simp [Passes]

@[simp] theorem passes_cons {c : Check} : Passes (c :: first) ↔ ¬ c.fails ∧ Passes first := by
  simp [Passes]

@[simp] theorem passes_append : Passes (first ++ second) ↔ Passes first ∧ Passes second := by
  simp [Passes, or_imp, forall_and]

/-- Later checks count only when the earlier ones pass. -/
theorem raises_append :
    Raises (first ++ second) fault ↔ Raises first fault ∨ Passes first ∧ Raises second fault := by
  induction first with
  | nil => simp
  | cons c rest ih =>
    by_cases fails : c.fails <;> simp [fails, ih]

theorem not_raises_of_passes {list : List Check} (passes : Passes list) : ¬ Raises list fault := by
  induction list with
  | nil => simp
  | cons c rest ih =>
    obtain ⟨first, later⟩ := passes_cons.1 passes
    simp [first, ih later]

/-- Either all checks pass, or there is a first that fails. -/
theorem passes_or_exists_raises (checks : List Check) :
    Passes checks ∨ ∃ fault, Raises checks fault := by
  induction checks with
  | nil => exact .inl passes_nil
  | cons c rest ih =>
    by_cases fails : c.fails
    · exact .inr ⟨c.fault, .inl ⟨fails, rfl⟩⟩
    · rcases ih with passes | ⟨fault, raises⟩
      · exact .inl (passes_cons.2 ⟨fails, passes⟩)
      · exact .inr ⟨fault, .inr ⟨fails, raises⟩⟩

/-- A reason to refuse is decided by a list of checks: it is the fault of the first that fails. -/
def DecidedBy (reason : Option Fault) (list : List Check) : Prop :=
  ∀ fault, reason = some fault ↔ Raises list fault

theorem decidedBy_nil : DecidedBy none [] := by
  simp [DecidedBy]

theorem decidedBy_cons {condition : Prop} [Decidable condition] {c : Check} {fault : Fault}
    {reason : Option Fault} {rest : List Check} (fails : c.fails ↔ ¬ condition)
    (same : c.fails → fault = c.fault) (later : DecidedBy reason rest) :
    DecidedBy ((require condition fault).or reason) (c :: rest) := by
  intro f
  by_cases holds : condition
  · have passes : ¬ c.fails := fun h => fails.1 h holds
    simp [require, holds, passes, later f]
  · have fails := fails.2 holds
    simp [require, holds, fails, same fails, eq_comm]

theorem decidedBy_singleton {condition : Prop} [Decidable condition] {c : Check}
    (fails : c.fails ↔ ¬ condition) : DecidedBy (require condition c.fault) [c] := by
  simpa only [Option.or_none] using decidedBy_cons fails (fun _ => rfl) decidedBy_nil

theorem eq_none_of_passes {reason : Option Fault} {list : List Check}
    (decided : DecidedBy reason list) (passes : Passes list) : reason = none := by
  cases reason with
  | none => rfl
  | some fault => exact absurd ((decided fault).1 rfl) (not_raises_of_passes passes)

end Check

open Check

/-! ## The checks of an instruction -/

namespace Machine

variable {σ : Type}

/-- The instruction has to lie in memory, operands included, and its first byte has to be one of an
operation. -/
def fetchChecks (m : Machine) : List Check :=
  let byte := cell m.memory m.pc
  [⟨m.pc = 256, .addressOutOfRange 256⟩,
    ⟨Operation.decode? byte = none, .unsupportedOperation byte m.pc⟩,
    ⟨255 < m.pc + Layout.operandCount byte, .addressOutOfRange 256⟩]

/-- A register operand has to name a register. -/
def registerCheck (byte : UInt8) : Check :=
  ⟨8 ≤ byte.toNat, .invalidRegister byte⟩

def pushCheck (m : Machine) : Check :=
  ⟨m.stackPointer = 0, .stackOverflow⟩

def popCheck (m : Machine) : Check :=
  ⟨m.stackPointer = 255, .stackUnderflow⟩

/-- The checks of an operation on the bytes `a` and `b`, in the order they are made.  A conditional
jump that is not taken makes none. -/
def operationChecks (m : Machine) (op : Operation) (a b : UInt8) : List Check :=
  match op with
  | .alu .not => [registerCheck a]
  | .alu .mod =>
    [registerCheck a, registerCheck b, ⟨value m.registers b = 0, .divideByZero⟩]
  | .alu _ => [registerCheck a, registerCheck b]
  | .transfer .call =>
    [⟨m.pc + 2 = 256, .addressOutOfRange 256⟩, registerCheck a, pushCheck m]
  | .transfer .ret => [popCheck m]
  | .transfer .jmp => [registerCheck a]
  | .transfer .jeq => if m.flag = .equal then [registerCheck a] else []
  | .transfer .jne => if m.flag = .equal then [] else [registerCheck a]
  | .data .hlt => []
  | .data .ldi => [registerCheck a]
  | .data .prn => [registerCheck a]
  | .data .push => [registerCheck a, pushCheck m]
  | .data .pop => [registerCheck a, popCheck m]

end Machine

namespace Writer

variable {σ : Type} [Writer σ]

/-- Why a sink refuses a part of the line of a value.  A line that is taken gives no reason. -/
def complaint (sink : σ) (v : UInt8) : SinkError :=
  match (print sink v).1 with
  | .ok () => .stalled
  | .error cause => cause

/-- The sink has to take all of the line. -/
def lineCheck (sink : σ) (v : UInt8) : Check :=
  ⟨held (print sink v).2 ≠ held sink ++ line v, .output (complaint sink v)⟩

theorem print_eq_ok_iff (sink : σ) (v : UInt8) :
    (print sink v).1 = .ok () ↔ held (print sink v).2 = held sink ++ line v := by
  obtain ⟨part, -, held_eq, ok_iff⟩ := held_print sink v
  rw [ok_iff, held_eq, List.append_cancel_left_eq]

end Writer

namespace Machine

variable {σ : Type} [Writer σ]

/-- The checks of a print, if there is one. -/
def lineChecks (sink : σ) (value : Option UInt8) : List Check :=
  value.toList.map (Writer.lineCheck sink)

/-- All checks of the next instruction, in the order they are made. -/
def checks (m : Machine) (sink : σ) : List Check :=
  let a := cell m.memory (m.pc + 1)
  let b := cell m.memory (m.pc + 2)
  fetchChecks m ++
    match Operation.decode? (cell m.memory m.pc) with
    | none => []
    | some op => operationChecks m op a b ++ lineChecks sink (printed m op a)

/-! ## The fetch -/

theorem operand_of_le (m : Machine) (byte : UInt8) (slot : Nat)
    (declared : slot < Layout.operandCount byte) (beyond : 256 ≤ m.pc + 1 + slot) :
    m.operand byte slot = .error (.addressOutOfRange (m.pc + 1 + slot)) := by
  rw [operand, if_pos declared, Memory.read_of_le beyond]

theorem exists_operand (m : Machine) (byte : UInt8) (slot : Nat)
    (inside : slot < Layout.operandCount byte → m.pc + 1 + slot < 256) :
    ∃ v, m.operand byte slot = .ok v := by
  by_cases declared : slot < Layout.operandCount byte
  · rw [operand, if_pos declared, Memory.read_of_lt (inside declared)]
    exact ⟨_, rfl⟩
  · rw [operand, if_neg declared]
    exact ⟨0, rfl⟩

theorem read_pc {m : Machine} (inside : m.pc < 256) :
    m.memory.read m.pc = .ok (cell m.memory m.pc) := by
  rw [Memory.read_of_lt inside, cell_of_lt _ inside]

theorem fetch_of_raises {m : Machine} {fault : Fault} (near : m.pc ≤ 256)
    (raises : Raises (fetchChecks m) fault) : m.fetch = .error fault := by
  simp only [fetchChecks, raises_cons, not_raises_nil, and_false, or_false] at raises
  rcases raises with ⟨at_end, rfl⟩ | ⟨inside, raises⟩
  · rw [fetch, Memory.read_of_le (Nat.le_of_eq at_end.symm), at_end]
    rfl
  have read := read_pc (show m.pc < 256 by omega)
  rcases raises with ⟨unknown, rfl⟩ | ⟨known, ⟨past, rfl⟩⟩
  · simp [fetch, read, Operation.decode, unknown, bind, Except.bind]
  obtain ⟨op, decoded⟩ := Option.ne_none_iff_exists'.1 known
  have short := Operation.operandCount_byte_le op
  rw [Operation.byte_of_decode? decoded] at short
  -- the byte at the program counter lies in memory, so the first that does not is at 256
  by_cases first : m.pc + 1 = 256
  · have missing := operand_of_le m (cell m.memory m.pc) 0 (by omega) (by omega)
    rw [Nat.add_zero, first] at missing
    simp [fetch, read, Operation.decode, decoded, missing, bind, Except.bind]
  · obtain ⟨a, found⟩ := exists_operand m (cell m.memory m.pc) 0 fun _ => by omega
    have missing := operand_of_le m (cell m.memory m.pc) 1 (by omega) (by omega)
    rw [show m.pc + 1 + 1 = 256 by omega] at missing
    simp [fetch, read, Operation.decode, decoded, found, missing, bind, Except.bind]

theorem fetch_of_passes {m : Machine} (near : m.pc ≤ 256) (passes : Passes (fetchChecks m)) :
    ∃ op a b, Operation.decode? (cell m.memory m.pc) = some op ∧
      m.fetch = .ok ⟨op.byte, op, a, b⟩ := by
  simp only [fetchChecks, passes_cons, passes_nil, and_true] at passes
  obtain ⟨inside, known, room⟩ := passes
  obtain ⟨op, decoded⟩ := Option.ne_none_iff_exists'.1 known
  obtain ⟨a, first⟩ := exists_operand m (cell m.memory m.pc) 0 fun _ => by omega
  obtain ⟨b, second⟩ := exists_operand m (cell m.memory m.pc) 1 fun _ => by omega
  refine ⟨op, a, b, decoded, ?_⟩
  have read := read_pc (show m.pc < 256 by omega)
  simp [fetch, read, Operation.decode, decoded, first, second, Operation.byte_of_decode? decoded,
    bind, Except.bind, pure, Except.pure]

/-! ## The operation -/

theorem decidedBy_register_cons (byte : UInt8) {reason : Option Fault} {rest : List Check}
    (later : DecidedBy reason rest) :
    DecidedBy ((registerRefusal byte).or reason) (registerCheck byte :: rest) :=
  decidedBy_cons (c := registerCheck byte) Nat.not_lt.symm (fun _ => rfl) later

theorem decidedBy_register (byte : UInt8) :
    DecidedBy (registerRefusal byte) [registerCheck byte] :=
  decidedBy_singleton (c := registerCheck byte) Nat.not_lt.symm

theorem decidedBy_push (m : Machine) : DecidedBy (pushRefusal m) [pushCheck m] :=
  decidedBy_singleton (c := pushCheck m) (by simp [pushCheck])

theorem decidedBy_pop (m : Machine) : DecidedBy (popRefusal m) [popCheck m] :=
  decidedBy_singleton (c := popCheck m) (by simp [popCheck])

/-- The checks of an operation whose bytes lie in memory are the reasons to refuse it. -/
theorem decidedBy_operationChecks {m : Machine} {op : Operation} {a b : UInt8}
    (inside : m.pc + Layout.width op.byte ≤ 256) :
    DecidedBy (refusal m op a b) (operationChecks m op a b) := by
  cases op with
  | alu op =>
    cases op with
    | not => exact decidedBy_register a
    | mod =>
      refine decidedBy_register_cons a (decidedBy_register_cons b ?_)
      exact decidedBy_singleton (c := ⟨value m.registers b = 0, .divideByZero⟩) (by simp)
    | add | mul | cmp | and | or | xor | shl | shr =>
      exact decidedBy_register_cons a (decidedBy_register_cons b decidedBy_nil)
  | transfer op =>
    cases op with
    | call =>
      have width : Layout.width (Operation.transfer .call).byte = 2 := rfl
      refine decidedBy_cons (by omega) (fun at_end => ?_)
        (decidedBy_register_cons a (decidedBy_push m))
      exact congrArg Fault.addressOutOfRange at_end
    | ret => exact decidedBy_pop m
    | jmp => exact decidedBy_register a
    | jeq =>
      by_cases equal : m.flag = .equal
      · simpa [refusal, operationChecks, equal] using decidedBy_register a
      · simpa [refusal, operationChecks, equal] using decidedBy_nil
    | jne =>
      by_cases equal : m.flag = .equal
      · simpa [refusal, operationChecks, equal] using decidedBy_nil
      · simpa [refusal, operationChecks, equal] using decidedBy_register a
  | data op =>
    cases op with
    | hlt => exact decidedBy_nil
    | ldi | prn => exact decidedBy_register a
    | push => exact decidedBy_register_cons a (decidedBy_push m)
    | pop => exact decidedBy_register_cons a (decidedBy_pop m)

/-! ## The line -/

theorem printOn_of_raises {sink : σ} {value : Option UInt8} {fault : Fault}
    (raises : Raises (lineChecks sink value) fault) :
    ∃ cause, (printOn sink value).1 = .error cause ∧ fault = .output cause := by
  cases value with
  | none => exact absurd raises not_raises_nil
  | some v =>
    obtain ⟨short, rfl⟩ :
        (Writer.lineCheck sink v).fails ∧ fault = (Writer.lineCheck sink v).fault := by
      simpa [lineChecks] using raises
    have refused : (Writer.print sink v).1 ≠ .ok () := mt (Writer.print_eq_ok_iff sink v).1 short
    simp only [printOn, Writer.lineCheck, Writer.complaint]
    rcases printed : (Writer.print sink v).1 with cause | _
    · exact ⟨cause, rfl, rfl⟩
    · exact absurd printed refused

theorem printOn_of_passes {sink : σ} {value : Option UInt8}
    (passes : Passes (lineChecks sink value)) : (printOn sink value).1 = .ok () := by
  cases value with
  | none => rfl
  | some v =>
    have whole := passes _ (List.mem_singleton_self _)
    exact (Writer.print_eq_ok_iff sink v).2 (Classical.not_not.1 whole)

/-! ## A step -/

/-- A fetched instruction that is refused at the bytes behind it in memory leaves everything alone. -/
theorem step_of_fetch_of_refusal {m : Machine} {op : Operation} {a b : UInt8} {fault : Fault}
    (running : m.status = .running) (fetched : m.fetch = .ok ⟨op.byte, op, a, b⟩)
    (refused : refusal m op (cell m.memory (m.pc + 1)) (cell m.memory (m.pc + 2)) = some fault)
    (sink : σ) : m.step sink = ⟨.error fault, m, sink⟩ := by
  obtain ⟨-, same⟩ := window_of_fetch fetched
  rw [step_of_fetch_ok running fetched, execute_congr same, execute_of_refusal refused]
  rfl

/-- A fetched instruction that is not refused at the bytes behind it in memory takes effect as a
whole if its value is taken, and otherwise leaves the machine alone. -/
theorem step_of_fetch_of_allowed {m : Machine} {op : Operation} {a b : UInt8}
    (running : m.status = .running) (fetched : m.fetch = .ok ⟨op.byte, op, a, b⟩)
    (allowed : refusal m op (cell m.memory (m.pc + 1)) (cell m.memory (m.pc + 2)) = none)
    (sink : σ) :
    let a' := cell m.memory (m.pc + 1)
    let m' := next m op a' (cell m.memory (m.pc + 2))
    m.step sink = match printOn sink (printed m op a') with
      | (.ok (), after) => ⟨.ok m'.status, m', after⟩
      | (.error cause, after) => ⟨.error (.output cause), m, after⟩ := by
  intro a' m'
  obtain ⟨-, same⟩ := window_of_fetch fetched
  rw [step_of_fetch_ok running fetched, execute_congr same, execute_of_allowed allowed]
  rcases printOn sink (printed m op a') with ⟨_ | _, after⟩ <;> rfl

/-- A step whose instruction can be fetched, by the bytes behind it in memory. -/
theorem result_step_of_fetch {m : Machine} {op : Operation} {a b : UInt8}
    (running : m.status = .running) (fetched : m.fetch = .ok ⟨op.byte, op, a, b⟩) (sink : σ) :
    let a' := cell m.memory (m.pc + 1)
    let b' := cell m.memory (m.pc + 2)
    (m.step sink).result = match refusal m op a' b', (printOn sink (printed m op a')).1 with
      | some fault, _ => .error fault
      | none, .error cause => .error (.output cause)
      | none, .ok () => .ok (next m op a' b').status := by
  intro a' b'
  cases refused : refusal m op a' b' with
  | some fault => rw [step_of_fetch_of_refusal running fetched refused]
  | none =>
    rw [step_of_fetch_of_allowed running fetched refused]
    rcases printOn sink (printed m op a') with ⟨_ | _, after⟩ <;> rfl

/-- A step ends in the fault of the first check that fails. -/
theorem result_step_of_raises {m : Machine} (running : m.status = .running) (near : m.pc ≤ 256)
    {sink : σ} {fault : Fault} (raises : Raises (checks m sink) fault) :
    (m.step sink).result = .error fault := by
  rcases raises_append.1 raises with unfetched | ⟨fetchable, raises⟩
  · have refused : advance m = .error fault := by
      rw [advance, fetch_of_raises near unfetched]
      rfl
    rw [step_of_advance_error running refused]
  · obtain ⟨op, a, b, decoded, fetched⟩ := fetch_of_passes near fetchable
    have decided := decidedBy_operationChecks (a := cell m.memory (m.pc + 1))
      (b := cell m.memory (m.pc + 2)) (end_le_of_fetch fetched)
    simp only [decoded] at raises
    rw [result_step_of_fetch running fetched]
    rcases raises_append.1 raises with refuses | ⟨allows, unprinted⟩
    · simp only [(decided fault).2 refuses]
    · obtain ⟨cause, refused, rfl⟩ := printOn_of_raises unprinted
      simp only [eq_none_of_passes decided allows, refused]

/-- A step whose checks all pass succeeds. -/
theorem result_step_of_passes {m : Machine} (running : m.status = .running) (near : m.pc ≤ 256)
    {sink : σ} (passes : Passes (checks m sink)) : ∃ status, (m.step sink).result = .ok status := by
  obtain ⟨fetchable, passes⟩ := passes_append.1 passes
  obtain ⟨op, a, b, decoded, fetched⟩ := fetch_of_passes near fetchable
  have decided := decidedBy_operationChecks (a := cell m.memory (m.pc + 1))
    (b := cell m.memory (m.pc + 2)) (end_le_of_fetch fetched)
  simp only [decoded] at passes
  obtain ⟨allows, prints⟩ := passes_append.1 passes
  rw [result_step_of_fetch running fetched]
  simp only [eq_none_of_passes decided allows, printOn_of_passes prints]
  exact ⟨_, rfl⟩

/-- **Which fault a step ends in.**  A step of a running machine whose program counter is at most
the size of memory faults exactly when one of its checks fails, with the fault of the first that
does; in all other cases it succeeds. -/
theorem step_checks {m : Machine} (running : m.status = .running) (near : m.pc ≤ 256) (sink : σ) :
    (∀ fault, (m.step sink).result = .error fault ↔ Raises (checks m sink) fault) ∧
      ((∃ status, (m.step sink).result = .ok status) ↔ Passes (checks m sink)) := by
  refine ⟨fun fault => ⟨fun failed => ?_, result_step_of_raises running near⟩,
    fun ⟨status, succeeded⟩ => ?_, result_step_of_passes running near⟩
  · rcases passes_or_exists_raises (checks m sink) with passes | ⟨other, raises⟩
    · obtain ⟨status, succeeded⟩ := result_step_of_passes running near passes
      cases failed.symm.trans succeeded
    · cases failed.symm.trans (result_step_of_raises running near raises)
      exact raises
  · rcases passes_or_exists_raises (checks m sink) with passes | ⟨other, raises⟩
    · exact passes
    · cases succeeded.symm.trans (result_step_of_raises running near raises)

/-- A call at the end of memory, through a register that does not exist and on a full stack: all its
checks fail, and the step ends in the fault of the first. -/
theorem step_checks_call :
    let m : Machine :=
      { memory := ⟨(Memory.zero.cells.set 254 0x50).set 255 9⟩
        registers := Registers.initial.set .sp 0
        pc := 254 }
    m.status = .running ∧ m.pc ≤ 256 ∧
      (∀ c ∈ operationChecks m (.transfer .call) 9 0, c.fails) ∧
      (m.step ({} : Sink)).result = .error (.addressOutOfRange 256) := by
  intro m
  have near : m.pc ≤ 256 := by simp [m]
  have byte : cell m.memory m.pc = 0x50 := by
    simp only [m]
    rfl
  have operand : cell m.memory (m.pc + 1) = 9 := by
    simp only [m]
    rfl
  have raises : Raises (checks m ({} : Sink)) (.addressOutOfRange 256) := by
    have call : Operation.decode? 0x50 = some (.transfer .call) := by decide
    have one : Layout.operandCount 0x50 = 1 := by decide
    simp [checks, fetchChecks, byte, call, one, operand, operationChecks, m]
  refine ⟨rfl, near, ?_, ((step_checks rfl near _).1 _).2 raises⟩
  have full : m.stackPointer = 0 := by simp [m, stackPointer]
  simp [operationChecks, registerCheck, pushCheck, full, m]

end Machine

end EightBit
