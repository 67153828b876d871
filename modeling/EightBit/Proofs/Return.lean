/-
# EightBit.Proofs.Return -- a call returns to its caller

A call stores the address behind it in the cell at the lowered stack pointer.  The called code may
then do what it likes: call further or itself, push and pop, jump, move the stack pointer, write over
code below.  As long as the stack pointer does not rise above that cell, none of this writes to it
(`cell_of_leads_of_le`).  So a return that finds the stack pointer where the call has left it goes
behind the call and puts the stack pointer back (`step_ret_of_call`).
-/
import EightBit.Proofs.Footprint

namespace EightBit.Machine

open Manual

set_option autoImplicit false

variable {σ : Type} [Writer σ]

/-- A call leaves the address behind it at the lowered stack pointer. -/
theorem cell_of_call {m : Machine} {sink : σ} {i : Instruction}
    (called : (m.taken sink).executed = some i) (call : i.op = .transfer .call) :
    m.stackPointer ≠ 0 ∧
      (cell (m.step sink).machine.memory (m.stackPointer - 1).toNat).toNat = m.pc + 2 := by
  obtain ⟨byte, op, a, b⟩ := i
  obtain rfl : op = .transfer .call := call
  obtain ⟨running, fetched, status, done⟩ := executed_taken_iff.1 called
  obtain ⟨allowed, after⟩ := next_of_step_ok running fetched done
  refine ⟨room_of_stores allowed (.inr rfl), ?_⟩
  obtain ⟨near, -⟩ := Option.or_eq_none_iff.1 allowed
  have stored : cell (m.step sink).machine.memory (m.stackPointer - 1).toNat = .ofNat (m.pc + 2) := by
    rw [after]
    exact cell_store_self _ (UInt8.toNat_lt _) _
  rw [stored, UInt8.toNat_ofNat_of_lt' (require_eq_none.1 near)]

/-- A return goes where the cell at the stack pointer says, and raises the stack pointer. -/
theorem step_ret {m : Machine} {i : Instruction} (running : m.status = .running)
    (fetched : m.fetch = .ok i) (ret : i.op = .transfer .ret) (room : m.stackPointer ≠ 255)
    (sink : σ) :
    m.step sink = ⟨.ok .running, { m with
      registers := m.registers.set .sp (m.stackPointer + 1)
      pc := (cell m.memory m.stackPointer.toNat).toNat
      steps := m.steps + 1 }, sink⟩ := by
  obtain ⟨op, a, b, rfl⟩ := exists_of_fetch_ok fetched
  obtain rfl : op = .transfer .ret := ret
  have allowed : refusal m (.transfer .ret) a b = none := require_eq_none.2 room
  rw [step_of_fetch_ok running fetched, execute_of_allowed allowed, ← running]
  rfl

/-- A cell keeps its byte while the stack pointer stays at it or below. -/
theorem cell_of_leads_of_le {start m : Machine} {past : List PastStep} (run : Leads start past m)
    {address : Nat} (below : ∀ p ∈ past, p.machine.stackPointer.toNat ≤ address) :
    cell m.memory address = cell start.memory address := by
  refine cell_of_leads run fun p taken i _ _ => ?_
  have low := below p taken
  omega

/-- **A call returns to its caller.**  Let a call be carried out with the stack pointer at `s`, and
any steps follow, whether they succeed or not, on machines with the stack pointer at `s - 1` or below.
A return that is then carried out with the stack pointer at `s - 1` goes behind the call, sets the
stack pointer to `s`, and does nothing else. -/
theorem step_ret_of_call {m m' : Machine} {sink : σ} {i j : Instruction} {past : List PastStep}
    (called : (m.taken sink).executed = some i) (call : i.op = .transfer .call)
    (body : Leads (m.step sink).machine past m')
    (below : ∀ p ∈ past, p.machine.stackPointer ≤ m.stackPointer - 1)
    (running : m'.status = .running) (fetched : m'.fetch = .ok j) (ret : j.op = .transfer .ret)
    (back : m'.stackPointer = m.stackPointer - 1) {τ : Type} [Writer τ] (other : τ) :
    m'.step other = ⟨.ok .running, { m' with
      registers := m'.registers.set .sp m.stackPointer
      pc := m.pc + 2
      steps := m'.steps + 1 }, other⟩ := by
  obtain ⟨room, stored⟩ := cell_of_call called call
  have kept : cell m'.memory (m.stackPointer - 1).toNat =
      cell (m.step sink).machine.memory (m.stackPointer - 1).toNat :=
    cell_of_leads_of_le body fun p taken => UInt8.le_iff_toNat_le.1 (below p taken)
  -- the return is not refused: a stack pointer that has been lowered is not at the last cell
  have not_last : m'.stackPointer ≠ 255 := by
    intro last
    have lowered := toNat_sub_one room
    have small := m.stackPointer.toNat_lt
    rw [← back, last] at lowered
    simp at lowered
    omega
  rw [step_ret running fetched ret not_last, back, kept, stored, UInt8.sub_add_cancel]

/-- The called code moves the stack pointer down, pushes it, and puts it back before it returns. -/
theorem step_ret_of_call_at_zero :
    let code : List (Nat × UInt8) := [(0, 0x50), (4, 0x82), (5, 7), (6, 0x10), (7, 0x45), (8, 7),
      (9, 0x82), (10, 7), (11, 0xF3), (12, 0x11)]
    let m : Machine :=
      { memory := code.foldl (fun memory (address, byte) => store memory address byte) .zero
        registers := Registers.initial.set 0 4 }
    let entered := (m.step ({} : Sink)).machine
    let lowered := (entered.step ({} : Sink)).machine
    let pushed := (lowered.step ({} : Sink)).machine
    let m' := (pushed.step ({} : Sink)).machine
    Leads entered [pushed.taken ({} : Sink), lowered.taken ({} : Sink), entered.taken ({} : Sink)] m' ∧
      entered.pc = 4 ∧ pushed.stackPointer = 0x0F ∧ m'.stackPointer = 0xF3 ∧
      m'.step ({} : Sink) = ⟨.ok .running,
        { m' with registers := m'.registers.set .sp 0xF4, pc := 2, steps := 5 }, {}⟩ := by
  intro code m entered lowered pushed m'
  have body : Leads entered
      [pushed.taken ({} : Sink), lowered.taken ({} : Sink), entered.taken ({} : Sink)] m' :=
    ((Leads.start.step ({} : Sink)).step ({} : Sink)).step ({} : Sink)
  have called : m.fetch = .ok ⟨0x50, .transfer .call, 0, 0⟩ ∧
      (m.step ({} : Sink)).result = .ok .running := by
    simp only [m, code]
    exact ⟨rfl, rfl⟩
  have pointers : entered.stackPointer = 0xF3 ∧ lowered.stackPointer = 0x10 ∧
      pushed.stackPointer = 0x0F ∧ m'.stackPointer = 0xF3 ∧ m.stackPointer = 0xF4 := by
    simp only [m', pushed, lowered, entered, m, code]
    decide +kernel
  have returns : entered.pc = 4 ∧ m'.status = .running ∧ m'.steps = 4 ∧
      m'.fetch = .ok ⟨0x11, .transfer .ret, 0, 0⟩ := by
    simp only [m', pushed, lowered, entered, m, code]
    exact ⟨rfl, rfl, rfl, rfl⟩
  obtain ⟨at_entry, at_lowered, at_pushed, at_ret, at_call⟩ := pointers
  obtain ⟨entry, running, counted, fetched⟩ := returns
  refine ⟨body, entry, at_pushed, at_ret, ?_⟩
  have below : ∀ p ∈ [pushed.taken ({} : Sink), lowered.taken ({} : Sink), entered.taken ({} : Sink)],
      p.machine.stackPointer ≤ m.stackPointer - 1 := by
    simp [taken, at_entry, at_lowered, at_pushed, at_call]
  have after := step_ret_of_call (i := ⟨0x50, .transfer .call, 0, 0⟩)
    (executed_taken_iff.2 ⟨rfl, called.1, _, called.2⟩) rfl body below running fetched rfl
    (by rw [at_ret, at_call]; decide) ({} : Sink)
  rw [after, at_call, counted]

end EightBit.Machine
