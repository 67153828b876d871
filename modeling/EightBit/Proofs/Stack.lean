/-
# EightBit.Proofs.Stack -- the stack in memory is a list

A program that leaves the stack pointer to the stack operations can count on a stack: a list that a
push and a call add to, and a pop and a return take from.  In memory the list lies below the address
the stack pointer started at, its newest element at the stack pointer (`Represents`).

`represents_next` says that one operation keeps this, whatever the operation is and wherever the
program lies, and `represents_of_run` that a run does.  `stack_run` adds what a program sees of it:
a pop delivers and a return goes to the element that was added last.
-/
import EightBit.Proofs.Step

namespace EightBit

open Manual

set_option autoImplicit false

namespace Manual

/-! ## The list -/

/-- The operation writes to the stack pointer as to any other register. -/
def WritesStackPointer (op : Operation) (a : UInt8) : Prop :=
  a = 7 ∧ match op with
    | .alu op => op ≠ .cmp
    | .data .ldi => True
    | .data .pop => True
    | _ => False

/-- The list after an operation; there is none when an element is taken from the empty list. -/
def moveStack (m : Machine) (op : Operation) (a : UInt8) (stack : List Nat) : Option (List Nat) :=
  match op, stack with
  | .data .push, stack => some ((value m.registers a).toNat :: stack)
  | .transfer .call, stack => some ((m.pc + 2) :: stack)
  | .data .pop, _ :: rest => some rest
  | .transfer .ret, _ :: rest => some rest
  | .data .pop, [] => none
  | .transfer .ret, [] => none
  | _, stack => some stack

/-- The cells from an address on hold the elements of a list. -/
def HoldsFrom (memory : Memory) (address : Nat) : List Nat → Prop
  | [] => True
  | v :: rest => (cell memory address).toNat = v ∧ HoldsFrom memory (address + 1) rest

theorem HoldsFrom.getElem {memory : Memory} {address : Nat} {stack : List Nat}
    (h : HoldsFrom memory address stack) {i : Nat} (inside : i < stack.length) :
    (cell memory (address + i)).toNat = stack[i] := by
  induction stack generalizing address i with
  | nil => simp at inside
  | cons v rest ih =>
    obtain ⟨first, others⟩ := h
    cases i with
    | zero => exact first
    | succ i =>
      rw [show address + (i + 1) = address + 1 + i by omega]
      exact ih others (by simpa using inside)

/-- A value stored below the cells does not touch them. -/
theorem HoldsFrom.store {memory : Memory} {address below : Nat} {stack : List Nat}
    (h : HoldsFrom memory address stack) (lt : below < address) (v : UInt8) :
    HoldsFrom (store memory below v) address stack := by
  induction stack generalizing address with
  | nil => trivial
  | cons w rest ih =>
    refine ⟨?_, ih h.2 (by omega)⟩
    rw [cell_store_of_ne _ (by omega)]
    exact h.1

end Manual

namespace Machine

theorem toNat_sub_one {x : UInt8} (h : x ≠ 0) : (x - 1).toNat + 1 = x.toNat := by
  have : x.toNat ≠ 0 := fun zero => h (UInt8.toNat_inj.1 zero)
  have := x.toNat_lt
  rw [UInt8.toNat_sub]
  simp
  omega

theorem toNat_add_one {x : UInt8} (h : x ≠ 255) : (x + 1).toNat = x.toNat + 1 := by
  have : x.toNat ≠ 255 := fun last => h (UInt8.toNat_inj.1 last)
  have := x.toNat_lt
  rw [UInt8.toNat_add]
  simp
  omega

/-- The stack of `m` is a list, and nothing above it has changed since `start`. -/
structure Represents (start m : Machine) (stack : List Nat) : Prop where
  pointer : m.stackPointer.toNat + stack.length = start.stackPointer.toNat
  holds : HoldsFrom m.memory m.stackPointer.toNat stack
  above : ∀ address, start.stackPointer.toNat ≤ address →
    cell m.memory address = cell start.memory address

namespace Represents

variable {start m m' : Machine} {stack : List Nat}

theorem empty (start : Machine) : Represents start start [] where
  pointer := rfl
  holds := trivial
  above _ _ := rfl

theorem of_same (h : Represents start m stack) (memory : m'.memory = m.memory)
    (pointer : m'.stackPointer = m.stackPointer) : Represents start m' stack where
  pointer := by rw [pointer]; exact h.pointer
  holds := by rw [memory, pointer]; exact h.holds
  above := by rw [memory]; exact h.above

/-- What is stored is below the stack, so the stack grows by it. -/
theorem push (h : Represents start m stack) (room : m.stackPointer ≠ 0) {v : UInt8}
    (memory : m'.memory = store m.memory (m.stackPointer - 1).toNat v)
    (pointer : m'.stackPointer = m.stackPointer - 1) :
    Represents start m' (v.toNat :: stack) := by
  have lowered := toNat_sub_one room
  have old := h.pointer
  refine ⟨?_, ⟨?_, ?_⟩, fun address le => ?_⟩
  · rw [pointer, List.length_cons]
    omega
  · rw [memory, pointer, cell_store_self _ (UInt8.toNat_lt _)]
  · -- the stored cell lies below every cell of the list, and below those that may not change
    rw [memory, pointer, lowered]
    exact h.holds.store (by omega) v
  · rw [memory, cell_store_of_ne _ (by omega)]
    exact h.above address le

/-- The newest element is the cell at the stack pointer. -/
theorem top {v : Nat} (h : Represents start m (v :: stack)) :
    (cell m.memory m.stackPointer.toNat).toNat = v :=
  h.holds.1

theorem pop {v : Nat} (h : Represents start m (v :: stack)) (room : m.stackPointer ≠ 255)
    (memory : m'.memory = m.memory) (pointer : m'.stackPointer = m.stackPointer + 1) :
    Represents start m' stack := by
  have raised := toNat_add_one room
  have old := h.pointer
  rw [List.length_cons] at old
  refine ⟨?_, ?_, ?_⟩
  · rw [pointer]
    omega
  · rw [memory, pointer, raised]
    exact h.holds.2
  · rw [memory]
    exact h.above

end Represents

/-! ## One operation -/

variable {start m : Machine} {stack stack' : List Nat} {op : Operation} {a b : UInt8}

theorem stackPointer_assign (m : Machine) {a : UInt8} (ne : a ≠ 7) (v : UInt8) :
    (assign m.registers a v).get .sp = m.stackPointer :=
  get_assign_of_ne _ (fun seven => ne (UInt8.toNat_inj.1 seven)) v

/-- An operation that has no part in the stack leaves it alone. -/
theorem represents_alu {op : AluOp} (h : Represents start m stack)
    (kept : ¬ WritesStackPointer (.alu op) a) : Represents start (next m (.alu op) a b) stack := by
  refine h.of_same (by rw [next, transition_alu]) ?_
  rw [next, transition_alu]
  by_cases compares : op = .cmp
  · simp [stackPointer, compares]
  · have ne : a ≠ 7 := fun seven => kept ⟨seven, compares⟩
    simpa [stackPointer, compares] using stackPointer_assign m ne _

/-- **One operation and the list.**  The stack is the list after every operation that is not refused
and leaves the stack pointer to the stack operations. -/
theorem represents_next (h : Represents start m stack) (allowed : refusal m op a b = none)
    (kept : ¬ WritesStackPointer op a) (moved : moveStack m op a stack = some stack') :
    Represents start (next m op a b) stack' := by
  cases op with
  | alu op =>
    obtain rfl : stack = stack' := by simpa [moveStack] using moved
    exact represents_alu h kept
  | transfer op =>
    cases op with
    | call =>
      obtain rfl : (m.pc + 2) :: stack = stack' := by simpa [moveStack] using moved
      obtain ⟨near, free⟩ := Option.or_eq_none_iff.1 allowed
      obtain ⟨-, room⟩ := Option.or_eq_none_iff.1 free
      have byte : (UInt8.ofNat (m.pc + 2)).toNat = m.pc + 2 :=
        UInt8.toNat_ofNat_of_lt' (require_eq_none.1 near)
      exact byte ▸ h.push (require_eq_none.1 room) rfl (by simp [next, transition, stackPointer])
    | ret =>
      cases stack with
      | nil => simp [moveStack] at moved
      | cons v rest =>
        obtain rfl : rest = stack' := by simpa [moveStack] using moved
        exact h.pop (require_eq_none.1 allowed) rfl (by simp [next, transition, stackPointer])
    | jmp | jeq | jne =>
      obtain rfl : stack = stack' := by simpa [moveStack] using moved
      exact h.of_same rfl rfl
  | data op =>
    cases op with
    | hlt | prn =>
      obtain rfl : stack = stack' := by simpa [moveStack] using moved
      exact h.of_same rfl rfl
    | ldi =>
      obtain rfl : stack = stack' := by simpa [moveStack] using moved
      have ne : a ≠ 7 := fun seven => kept ⟨seven, trivial⟩
      exact h.of_same rfl (stackPointer_assign m ne b)
    | push =>
      obtain rfl : (value m.registers a).toNat :: stack = stack' := by simpa [moveStack] using moved
      obtain ⟨-, room⟩ := Option.or_eq_none_iff.1 allowed
      exact h.push (require_eq_none.1 room) rfl (by simp [next, transition, stackPointer])
    | pop =>
      cases stack with
      | nil => simp [moveStack] at moved
      | cons v rest =>
        obtain rfl : rest = stack' := by simpa [moveStack] using moved
        obtain ⟨-, room⟩ := Option.or_eq_none_iff.1 allowed
        have ne : a.toNat ≠ (Register.sp : Nat) := fun seven =>
          kept ⟨UInt8.toNat_inj.1 seven, trivial⟩
        exact h.pop (require_eq_none.1 room) rfl
          ((get_assign_of_ne _ ne _).trans (Registers.get_set_self ..))

/-! ## Runs -/

/-- The machines and lists there can be after finitely many successful steps, each on a sink of its
own.  No step writes to the stack pointer otherwise, or takes an element from the empty list. -/
inductive StackRun (start : Machine) : Machine → List Nat → Prop
  | start : StackRun start start []
  | step {σ : Type} [Writer σ] {m : Machine} {stack stack' : List Nat} {i : Instruction}
      {status : Status} (sink : σ) (before : StackRun start m stack) (running : m.status = .running)
      (fetched : m.fetch = .ok i) (kept : ¬ WritesStackPointer i.op i.a)
      (moved : moveStack m i.op i.a stack = some stack')
      (done : (m.step sink).result = .ok status) : StackRun start (m.step sink).machine stack'
  | rest {σ : Type} [Writer σ] {m : Machine} {stack : List Nat} (sink : σ)
      (before : StackRun start m stack) (halted : m.status = .halted) :
      StackRun start (m.step sink).machine stack

theorem next_of_step_ok {σ : Type} [Writer σ] {m : Machine} {sink : σ} {i : Instruction}
    {status : Status} (running : m.status = .running) (fetched : m.fetch = .ok i)
    (done : (m.step sink).result = .ok status) :
    refusal m i.op i.a i.b = none ∧ (m.step sink).machine = next m i.op i.a i.b := by
  obtain ⟨op, a, b, found, allowed, after, -, stepped⟩ := exists_next_of_step_ok running done
  obtain rfl := Except.ok.inj (found.symm.trans fetched)
  exact ⟨allowed, by rw [stepped]⟩

theorem represents_of_run (run : StackRun start m stack) : Represents start m stack := by
  induction run with
  | start => exact .empty start
  | step sink _ running fetched kept moved done ih =>
    obtain ⟨allowed, after⟩ := next_of_step_ok running fetched done
    rw [after]
    exact represents_next ih allowed kept moved
  | rest sink _ halted ih =>
    rw [step_of_halted halted]
    exact ih

/-- A pop delivers the newest element. -/
theorem read_next_pop {v : Nat} (h : Represents start m (v :: stack))
    (allowed : refusal m (.data .pop) a b = none) :
    ∃ byte, (next m (.data .pop) a b).registers.read a = .ok byte ∧ byte.toNat = v := by
  obtain ⟨named, -⟩ := Option.or_eq_none_iff.1 allowed
  exact ⟨_, read_assign_self named _, h.top⟩

/-- A return goes to the newest element. -/
theorem pc_next_ret {v : Nat} (h : Represents start m (v :: stack)) :
    (next m (.transfer .ret) a b).pc = v :=
  h.top

/-- **The stack is a list over every run** of successful steps that leaves the stack pointer to the
stack operations and takes no element from the empty list.  The next pop delivers the element added
last, and the next return goes there. -/
theorem stack_run (run : StackRun start m stack) :
    m.stackPointer.toNat + stack.length = start.stackPointer.toNat ∧
    (∀ i (inside : i < stack.length),
      (cell m.memory (m.stackPointer.toNat + i)).toNat = stack[i]) ∧
    (∀ address, start.stackPointer.toNat ≤ address →
      cell m.memory address = cell start.memory address) ∧
    (∀ (σ : Type) [Writer σ] (sink : σ) (i : Instruction) (status : Status) (v : Nat)
      (rest : List Nat), stack = v :: rest → m.status = .running → m.fetch = .ok i →
      (m.step sink).result = .ok status →
      (i.op = .data .pop →
        ∃ byte, (m.step sink).machine.registers.read i.a = .ok byte ∧ byte.toNat = v) ∧
      (i.op = .transfer .ret → (m.step sink).machine.pc = v)) := by
  have h : Represents start m stack := represents_of_run run
  refine ⟨h.pointer, ?_, h.above, ?_⟩
  · intro i inside
    exact h.holds.getElem inside
  · rintro σ _ sink ⟨byte, op, a, b⟩ status v rest rfl running fetched done
    obtain ⟨allowed, after⟩ := next_of_step_ok running fetched done
    rw [after]
    constructor
    · rintro rfl
      exact read_next_pop h allowed
    · rintro rfl
      exact pc_next_ret h

/-- R0 is pushed and popped into R1. -/
theorem stack_run_push_pop :
    let memory : Memory := ⟨((Memory.zero.cells.set 0 0x45).set 2 0x46).set 3 1⟩
    let start : Machine := { memory, registers := Registers.initial.set 0 5 }
    let pushed := (start.step ({} : Sink)).machine
    StackRun start pushed [5] ∧
      pushed.stackPointer.toNat + 1 = 0xF4 ∧
      ∃ byte, (pushed.step ({} : Sink)).machine.registers.read 1 = .ok byte ∧ byte.toNat = 5 := by
  intro memory start pushed
  have run : StackRun start pushed [5] := by
    have first : start.fetch = .ok ⟨0x45, .data .push, 0, 0⟩ ∧
        (start.step ({} : Sink)).result = .ok .running := by
      simp only [start, memory]
      exact ⟨rfl, rfl⟩
    refine .step _ .start rfl first.1 ?_ rfl first.2
    rintro ⟨⟨⟩, -⟩
  obtain ⟨pointer, -, -, seen⟩ := stack_run run
  have next : pushed.fetch = .ok ⟨0x46, .data .pop, 1, 0⟩ ∧ pushed.status = .running ∧
      (pushed.step ({} : Sink)).result = .ok .running := by
    simp only [pushed, start, memory]
    exact ⟨rfl, rfl, rfl⟩
  obtain ⟨fetched, running, done⟩ := next
  exact ⟨run, pointer, (seen Sink {} _ _ 5 [] rfl running fetched done).1 rfl⟩

end Machine

end EightBit
