/-
# EightBit.Proofs.Footprint -- what a step may change, and what a run leaves alone

Each operation has a small footprint.  A cell is written by a push and by a call only, and then it is
the one below the stack; a register is written as the target of an operation, or as the stack pointer
by the operations that move it; the flag is set by a comparison, the status by a halt, and the sink
takes bytes from a print.  `footprint_step` says that a step changes nothing else, whether it succeeds
or not.

A run is a list of steps that were taken, each on a sink of its own (`Machine.Leads`).  A cell that no
push or call of the run stores into is the same after it (`cell_of_leads`).  So the last cell never
changes, and a program stays as it was loaded while the stack keeps above it (`footprint_of_leads`).
-/
import EightBit.Proofs.Stack

namespace EightBit

open Manual

set_option autoImplicit false

/-! ## The footprint of an operation -/

namespace Manual

/-- The operation stores a byte below the stack. -/
def Stores (op : Operation) : Prop :=
  op = .data .push ∨ op = .transfer .call

/-- The operation, with `a` as its first operand, writes the register: as its target, or as the stack
pointer that it moves. -/
def Writes (op : Operation) (a : UInt8) (r : Register) : Prop :=
  match op with
  | .alu op => op ≠ .cmp ∧ a.toNat = r
  | .transfer .call => r = .sp
  | .transfer .ret => r = .sp
  | .transfer _ => False
  | .data .ldi => a.toNat = r
  | .data .push => r = .sp
  | .data .pop => a.toNat = r ∨ r = .sp
  | .data _ => False

variable {m : Machine} {op : Operation} {a b : UInt8}

/-- An operation that stores finds a cell below the stack. -/
theorem room_of_stores (allowed : refusal m op a b = none) (stores : Stores op) :
    m.stackPointer ≠ 0 := by
  rcases stores with rfl | rfl
  · obtain ⟨-, room⟩ := Option.or_eq_none_iff.1 allowed
    exact require_eq_none.1 room
  · obtain ⟨-, allowed⟩ := Option.or_eq_none_iff.1 allowed
    obtain ⟨-, room⟩ := Option.or_eq_none_iff.1 allowed
    exact require_eq_none.1 room

/-- A cell keeps its byte, unless the operation stores and the cell is the one below the stack. -/
theorem cell_next {address : Nat} (allowed : refusal m op a b = none)
    (apart : Stores op → address + 1 ≠ m.stackPointer.toNat) :
    cell (next m op a b).memory address = cell m.memory address := by
  have other (stores : Stores op) : address ≠ (m.stackPointer - 1).toNat := by
    have lowered := Machine.toNat_sub_one (room_of_stores allowed stores)
    have elsewhere := apart stores
    omega
  cases op with
  | alu op => rw [next, transition_alu]
  | transfer op =>
    cases op with
    | call => exact cell_store_of_ne _ (other (.inr rfl)) _
    | ret | jmp | jeq | jne => rfl
  | data op =>
    cases op with
    | push => exact cell_store_of_ne _ (other (.inl rfl)) _
    | hlt | ldi | prn | pop => rfl

/-- A register keeps its value, unless the operation writes it. -/
theorem get_registers_next {r : Register} (apart : ¬ Writes op a r) :
    (next m op a b).registers.get r = m.registers.get r := by
  cases op with
  | alu op =>
    rw [next, transition_alu]
    by_cases compares : op = .cmp
    · simp [compares]
    · have other : a.toNat ≠ r := fun same => apart ⟨compares, same⟩
      simpa [compares] using get_assign_of_ne m.registers other _
  | transfer op =>
    cases op with
    | call | ret => exact Registers.get_set_of_ne _ (Ne.symm apart) _
    | jmp | jeq | jne => rfl
  | data op =>
    cases op with
    | ldi => exact get_assign_of_ne _ apart _
    | push => exact Registers.get_set_of_ne _ (Ne.symm apart) _
    | pop =>
      obtain ⟨target, pointer⟩ := not_or.1 apart
      exact (get_assign_of_ne _ target _).trans (Registers.get_set_of_ne _ (Ne.symm pointer) _)
    | hlt | prn => rfl

end Manual

/-! ## Steps that were taken -/

/-- A step that was taken: the machine it was taken on, and how it went. -/
structure PastStep where
  machine : Machine
  result : Except Fault Status

/-- The instruction the step carried out.  A step that faulted carried out none, and neither did one
of a halted machine. -/
def PastStep.executed (p : PastStep) : Option Instruction :=
  match p.machine.status, p.result with
  | .running, .ok _ => p.machine.fetch.toOption
  | _, _ => none

namespace Machine

variable {σ : Type} [Writer σ]

/-- The step of a machine on a sink, once it has been taken. -/
def taken (m : Machine) (sink : σ) : PastStep :=
  ⟨m, (m.step sink).result⟩

/-- The machines there can be after finitely many steps, each on a sink of its own, with the steps
that were taken, the last one first.  Each of them may succeed or fault. -/
inductive Leads (start : Machine) : List PastStep → Machine → Prop
  | start : Leads start [] start
  | step {τ : Type} [Writer τ] {past : List PastStep} {m : Machine} (sink : τ)
      (before : Leads start past m) : Leads start (m.taken sink :: past) (m.step sink).machine

theorem executed_taken_iff {m : Machine} {sink : σ} {i : Instruction} :
    (m.taken sink).executed = some i ↔
      m.status = .running ∧ m.fetch = .ok i ∧ ∃ status, (m.step sink).result = .ok status := by
  unfold PastStep.executed taken
  cases m.status with
  | halted => simp
  | running =>
    cases (m.step sink).result with
    | error fault => simp
    | ok status => cases m.fetch <;> simp [Except.toOption]

/-- A step carries out an instruction that is not refused, or leaves the machine alone. -/
theorem taken_cases (m : Machine) (sink : σ) :
    (∃ i, (m.taken sink).executed = some i ∧ refusal m i.op i.a i.b = none ∧
      (m.step sink).machine = next m i.op i.a i.b) ∨
    (m.taken sink).executed = none ∧ (m.step sink).machine = m := by
  cases carried : (m.taken sink).executed with
  | some i =>
    obtain ⟨running, fetched, status, done⟩ := executed_taken_iff.1 carried
    exact .inl ⟨i, rfl, next_of_step_ok running fetched done⟩
  | none =>
    refine .inr ⟨rfl, ?_⟩
    rcases step_cases m sink with ⟨-, stepped⟩ | ⟨-, f, -, stepped⟩ |
        ⟨running, e, after, advanced, -, stepped⟩ | ⟨-, e, cause, after, -, -, stepped⟩
    · rw [stepped]
    · rw [stepped]
    · obtain ⟨op, a, b, fetched, -⟩ := advance_eq_ok advanced
      have done : (m.taken sink).executed = some ⟨op.byte, op, a, b⟩ :=
        executed_taken_iff.2 ⟨running, fetched, _, by rw [stepped]⟩
      simp [done] at carried
    · rw [stepped]

/-! ## The footprint of a step -/

/-- What a step leaves alone, given what it carries out.  The sink goes by what is attempted, as a
print that fails may leave a part of its line there. -/
structure Footprint (m : Machine) (sink : σ) : Prop where
  memory : ∀ address,
    (∀ i, (m.taken sink).executed = some i → Stores i.op →
      address + 1 ≠ m.stackPointer.toNat) →
    cell (m.step sink).machine.memory address = cell m.memory address
  registers : ∀ r, (∀ i, (m.taken sink).executed = some i → ¬ Writes i.op i.a r) →
    (m.step sink).machine.registers.get r = m.registers.get r
  flag : (∀ i, (m.taken sink).executed = some i → i.op ≠ .alu .cmp) →
    (m.step sink).machine.flag = m.flag
  status : (∀ i, (m.taken sink).executed = some i → i.op ≠ .data .hlt) →
    (m.step sink).machine.status = m.status
  sink : (m.status = .running → ∀ i, m.fetch = .ok i → i.op ≠ .data .prn) →
    (m.step sink).sink = sink

/-- A sink is left alone by a step that is not at a print. -/
theorem sink_step_of_silent {m : Machine}
    (silent : m.status = .running → ∀ i, m.fetch = .ok i → i.op ≠ .data .prn) (sink : σ) :
    (m.step sink).sink = sink := by
  have nothing {e : Effect} (running : m.status = .running) (advanced : advance m = .ok e) :
      e.printed = none := by
    obtain ⟨op, a, b, fetched, -, rfl⟩ := advance_eq_ok advanced
    simp [printed, silent running _ fetched]
  rcases step_cases m sink with ⟨-, stepped⟩ | ⟨-, f, -, stepped⟩ |
      ⟨running, e, after, advanced, taken, stepped⟩ |
      ⟨running, e, cause, after, advanced, failed, stepped⟩
  · rw [stepped]
  · rw [stepped]
  · rw [nothing running advanced, printOn] at taken
    rw [stepped, (Prod.mk.inj taken).2]
  · rw [nothing running advanced, printOn] at failed
    cases failed

/-- **The footprint of a step**, on any machine and sink. -/
theorem footprint_step (m : Machine) (sink : σ) : Footprint m sink := by
  have quiet := fun silent => sink_step_of_silent (m := m) silent sink
  rcases taken_cases m sink with ⟨i, carried, allowed, after⟩ | ⟨-, same⟩
  · refine ⟨fun address apart => ?_, fun r apart => ?_, fun apart => ?_, fun apart => ?_, quiet⟩
    · rw [after]
      exact cell_next allowed (apart i carried)
    · rw [after]
      exact get_registers_next (apart i carried)
    · rw [after, flag_next, if_neg (apart i carried)]
    · rw [after, status_next, if_neg (apart i carried)]
  · exact ⟨fun _ _ => by rw [same], fun _ _ => by rw [same], fun _ => by rw [same],
      fun _ => by rw [same], quiet⟩

/-! ## Runs -/

/-- A cell that no push or call has stored into is as it was. -/
theorem cell_of_leads {start m : Machine} {past : List PastStep} (run : Leads start past m)
    {address : Nat}
    (apart : ∀ p ∈ past, ∀ i, p.executed = some i → Stores i.op →
      address + 1 ≠ p.machine.stackPointer.toNat) :
    cell m.memory address = cell start.memory address := by
  induction run with
  | start => rfl
  | @step τ _ past m sink before ih =>
    have kept := (footprint_step m sink).memory address (apart _ List.mem_cons_self)
    rw [kept, ih fun p taken => apart p (List.mem_cons_of_mem _ taken)]

/-- A loaded program lies in the leading cells. -/
theorem cell_of_ofProgram {program : List UInt8} {m : Machine} (loaded : ofProgram program = .ok m)
    {address : Nat} (inside : address < program.length) :
    cell m.memory address = program[address] := by
  obtain ⟨memory, filled, rfl⟩ := map_eq_ok.1 loaded
  have there : address < Memory.size := by
    have fits : program.length ≤ Memory.size := Decidable.byContradiction fun long => by
      rw [Memory.load, if_neg long] at filled
      cases filled
    omega
  have zero : initial.memory.read address = .ok initial.memory.cells[address] :=
    Memory.read_of_lt there
  have read := Memory.read_load filled address
  rw [zero] at read
  rw [cell_of_read (v := program.getD address _) read, List.getD_eq_getElem?_getD,
    List.getElem?_eq_getElem inside]
  rfl

/-- **What a run leaves alone.**  Every step changes only what its instruction is there to change.  So
the last cell is the same after any run; and a program that was loaded is as it was, if at every push
and call that was carried out the stack pointer was above it. -/
theorem footprint_of_leads {start m : Machine} {past : List PastStep} (run : Leads start past m) :
    (∀ (τ : Type) [Writer τ] (sink : τ), Footprint m sink) ∧
    cell m.memory 255 = cell start.memory 255 ∧
    ∀ program, ofProgram program = .ok start →
      (∀ p ∈ past, ∀ i, p.executed = some i → Stores i.op →
        program.length < p.machine.stackPointer.toNat) →
      ∀ address (inside : address < program.length),
        cell m.memory address = program[address] := by
  refine ⟨fun τ _ sink => footprint_step m sink, ?_, fun program loaded above address inside => ?_⟩
  · -- the cell below the stack is the last one for no stack pointer
    refine cell_of_leads run fun p _ i _ _ => ?_
    have small := p.machine.stackPointer.toNat_lt
    omega
  · rw [← cell_of_ofProgram loaded inside]
    refine cell_of_leads run fun p taken i carried stores => ?_
    have higher := above p taken i carried stores
    omega

/-- A push and a call in a program of four bytes, which it finds as it was. -/
theorem footprint_of_push_call :
    let program : List UInt8 := [0x45, 0, 0x50, 1]
    let start : Machine := { memory := ⟨((Memory.zero.cells.set 0 0x45).set 2 0x50).set 3 1⟩ }
    let pushed := (start.step ({} : Sink)).machine
    let called := (pushed.step ({} : Sink)).machine
    let past := [pushed.taken ({} : Sink), start.taken ({} : Sink)]
    Leads start past called ∧ ofProgram program = .ok start ∧
      (∀ p ∈ past, ∀ i, p.executed = some i → Stores i.op →
        program.length < p.machine.stackPointer.toNat) ∧
      called.stackPointer = 0xF2 ∧ cell called.memory 0xF2 = 4 ∧
      ∀ address (inside : address < program.length), cell called.memory address = program[address] := by
  intro program start pushed called past
  have run : Leads start past called := (Leads.start.step ({} : Sink)).step ({} : Sink)
  have loaded : ofProgram program = .ok start := by
    have filled : Memory.mk (.ofFn fun address => program.getD address Memory.zero.cells[address]) =
        start.memory := by
      refine congrArg Memory.mk (Vector.ext fun address inside => ?_)
      rcases address with _ | _ | _ | _ | address <;> simp [program, Memory.zero]
    exact congrArg (fun memory => Except.ok { initial with memory }) filled
  have above : ∀ p ∈ past, ∀ i, p.executed = some i → Stores i.op →
      program.length < p.machine.stackPointer.toNat := by
    have bounds : 4 < pushed.stackPointer.toNat ∧ 4 < start.stackPointer.toNat := by
      simp only [pushed, start]
      decide +kernel
    intro p taken _ _ _
    simp only [past, List.mem_cons, List.not_mem_nil, or_false] at taken
    rcases taken with rfl | rfl
    · exact bounds.1
    · exact bounds.2
  have seen : called.stackPointer = 0xF2 ∧ cell called.memory 0xF2 = 4 := by
    simp only [called, pushed, start]
    decide +kernel
  exact ⟨run, loaded, above, seen.1, seen.2, (footprint_of_leads run).2.2 program loaded above⟩

end Machine

end EightBit
