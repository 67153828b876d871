/-
# EightBit.Proofs.Comparison -- conditional jumps go by the last comparison

The flag is set by a comparison and by nothing else, so after a run it tells how the two values stood
that were compared last, whatever has become of their registers since (`flag_of_leads`).  A
conditional jump looks at nothing but the flag.  So it is decided by those two values being equal or
not (`branches_of_leads`), and before the first comparison it goes as if they were not.
-/
import EightBit.Proofs.Bounds
import EightBit.Proofs.Footprint

namespace EightBit

open Manual

set_option autoImplicit false

/-! ## The last comparison -/

/-- The values that a step has compared, if it has carried out a comparison. -/
def PastStep.compared (p : PastStep) : Option (UInt8 × UInt8) :=
  p.executed.bind fun i =>
    if i.op = .alu .cmp then
      some (value p.machine.registers i.a, value p.machine.registers i.b)
    else none

/-- The values that were compared last.  The last step is the first of the list. -/
def lastCompared (past : List PastStep) : Option (UInt8 × UInt8) :=
  past.findSome? PastStep.compared

theorem Manual.comparison_eq_equal_iff {x y : UInt8} : comparison x y = .equal ↔ x = y := by
  unfold comparison
  split
  · next less => simp [UInt8.ne_of_lt less]
  · next not_less =>
    split
    · next greater => simp [(UInt8.ne_of_lt greater).symm]
    · next not_greater =>
      simp [UInt8.le_antisymm (UInt8.not_lt.1 not_greater) (UInt8.not_lt.1 not_less)]

namespace Machine

variable {σ : Type} [Writer σ]

theorem flag_step (m : Machine) (sink : σ) :
    (m.step sink).machine.flag =
      (m.taken sink).compared.elim m.flag fun (x, y) => comparison x y := by
  rcases taken_cases m sink with ⟨i, carried, -, after⟩ | ⟨nothing, same⟩
  · rw [after, flag_next, PastStep.compared, carried, Option.bind_some]
    split <;> rfl
  · rw [same, PastStep.compared, nothing]
    rfl

/-- The flag after a run is that of the last comparison, or else the one at the start. -/
theorem flag_of_leads {start m : Machine} {past : List PastStep} (run : Leads start past m) :
    m.flag = (lastCompared past).elim start.flag fun (x, y) => comparison x y := by
  induction run with
  | start => rfl
  | @step τ _ past m sink before ih =>
    rw [flag_step, lastCompared, List.findSome?_cons]
    cases (m.taken sink).compared with
    | some values => rfl
    | none => exact ih

/-- A machine that has been made anew, and has carried out nothing yet, has an empty flag. -/
theorem flag_of_driven {m : Machine} (driven : Driven none m) : m.flag = .uninit := by
  -- the induction needs a variable there; a step that carries out an instruction makes it `some`
  generalize nothing : (none : Option Machine) = last at driven
  induction driven with
  | initial => rfl
  | @program program m loaded =>
    obtain ⟨memory, -, rfl⟩ := map_eq_ok.1 loaded
    rfl
  | @step τ _ last m sink before ih =>
    rcases step_cases m sink with ⟨halted, stepped⟩ | ⟨-, f, -, stepped⟩ |
        ⟨running, e, after, -, -, stepped⟩ | ⟨-, e, cause, after, -, -, stepped⟩
    · rw [stepped]
      exact ih (by simpa [lastAfter, halted] using nothing)
    · rw [stepped]
      exact ih (by simpa [lastAfter, stepped] using nothing)
    · simp [lastAfter, running, stepped] at nothing
    · rw [stepped]
      exact ih (by simpa [lastAfter, stepped] using nothing)
  | @change last m call before ih =>
    obtain ⟨memory, registers, after⟩ := exists_changed_eq m call
    rw [after]
    exact ih nothing

/-! ## Conditional jumps -/

/-- The machine is about to carry out a control transfer through a register that exists. -/
structure AtTransfer (m : Machine) (op : TransferOp) (a : UInt8) : Prop where
  running : m.status = .running
  byte : m.memory.read m.pc = .ok op.byte
  operand : m.memory.read (m.pc + 1) = .ok a
  named : a.toNat < 8

/-- The next step places the program counter and does nothing else. -/
def GoesTo (m : Machine) (pc : Nat) : Prop :=
  ∀ (τ : Type) [Writer τ] (sink : τ),
    m.step sink = ⟨.ok .running, { m with pc, steps := m.steps + 1 }, sink⟩

/-- The conditional jumps of a machine go by `equal`: one is taken if it holds, and the other if it
does not. -/
structure BranchesOn (m : Machine) (equal : Prop) : Prop where
  jeq_taken : ∀ a, m.AtTransfer .jeq a → equal → m.GoesTo (value m.registers a).toNat
  jeq_not_taken : ∀ a, m.AtTransfer .jeq a → ¬ equal → m.GoesTo (m.pc + 2)
  jne_taken : ∀ a, m.AtTransfer .jne a → ¬ equal → m.GoesTo (value m.registers a).toNat
  jne_not_taken : ∀ a, m.AtTransfer .jne a → equal → m.GoesTo (m.pc + 2)

theorem fetch_of_atTransfer {m : Machine} {op : TransferOp} {a : UInt8} (here : m.AtTransfer op a)
    (one : Layout.operandCount op.byte = 1) :
    m.fetch = .ok ⟨(Operation.transfer op).byte, .transfer op, a, 0⟩ := by
  have decoded : Operation.decode? op.byte = some (.transfer op) :=
    Operation.decode?_byte (.transfer op)
  simp [fetch, here.byte, Operation.decode, decoded, operand, one, here.operand, bind, Except.bind,
    pure, Except.pure, Operation.byte]

/-- A transfer that is not refused, and whose row only places the program counter. -/
theorem goesTo_of_next {m : Machine} {op : TransferOp} {a : UInt8} {pc : Nat}
    (here : m.AtTransfer op a) (one : Layout.operandCount op.byte = 1)
    (allowed : refusal m (.transfer op) a 0 = none)
    (places : next m (.transfer op) a 0 = { m with pc, steps := m.steps + 1 }) : m.GoesTo pc := by
  intro τ _ sink
  rw [step_of_fetch_ok here.running (fetch_of_atTransfer here one), execute_of_allowed allowed,
    places, ← here.running]
  rfl

theorem goesTo_jeq {m : Machine} {a : UInt8} (here : m.AtTransfer .jeq a) :
    m.GoesTo (if m.flag = .equal then (value m.registers a).toNat else m.pc + 2) := by
  have named := registerRefusal_eq_none.2 here.named
  exact goesTo_of_next here rfl (by simp [refusal, named]) rfl

theorem goesTo_jne {m : Machine} {a : UInt8} (here : m.AtTransfer .jne a) :
    m.GoesTo (if m.flag = .equal then m.pc + 2 else (value m.registers a).toNat) := by
  have named := registerRefusal_eq_none.2 here.named
  exact goesTo_of_next here rfl (by simp [refusal, named]) rfl

/-- The flag decides the conditional jumps. -/
theorem branchesOn_of_flag {m : Machine} {equal : Prop} (h : m.flag = .equal ↔ equal) :
    m.BranchesOn equal where
  jeq_taken a here holds := by simpa only [if_pos (h.2 holds)] using goesTo_jeq here
  jeq_not_taken a here differs := by simpa only [if_neg (mt h.1 differs)] using goesTo_jeq here
  jne_taken a here differs := by simpa only [if_neg (mt h.1 differs)] using goesTo_jne here
  jne_not_taken a here holds := by simpa only [if_pos (h.2 holds)] using goesTo_jne here

/-- **Conditional jumps follow the last comparison.**  After a run in which values have been compared,
the flag is the order of those compared last, as they were then, and a conditional jump is decided by
their being equal.  After a run without a comparison the flag is the one at the start; and if nothing
had been carried out before on a machine made anew, jumps go as after values that differ. -/
theorem branches_of_leads {start m : Machine} {past : List PastStep} (run : Leads start past m) :
    (∀ x y, lastCompared past = some (x, y) →
      m.flag = comparison x y ∧ m.BranchesOn (x = y)) ∧
    (lastCompared past = none →
      m.flag = start.flag ∧ m.BranchesOn (start.flag = .equal) ∧
        (Driven none start → m.BranchesOn False)) := by
  have flag := flag_of_leads run
  refine ⟨fun x y last => ?_, fun none_yet => ?_⟩
  · rw [last, Option.elim_some] at flag
    exact ⟨flag, branchesOn_of_flag (by rw [flag, comparison_eq_equal_iff])⟩
  · rw [none_yet, Option.elim_none] at flag
    refine ⟨flag, branchesOn_of_flag (by rw [flag]), fun anew => branchesOn_of_flag ?_⟩
    simp [flag, flag_of_driven anew]

/-- Equal values are compared and one of them is changed before the jump is reached; and a machine
that has compared nothing comes to the other jump. -/
theorem branches_of_leads_changed :
    let code : List (Nat × UInt8) :=
      [(0, 0xA7), (2, 1), (3, 0x82), (5, 5), (6, 0x55), (7, 2)]
    let start : Machine :=
      { memory := code.foldl (fun memory (address, byte) => store memory address byte) .zero
        registers := Registers.initial.set 2 0x40 }
    let compared := (start.step ({} : Sink)).machine
    let m := (compared.step ({} : Sink)).machine
    let past := [compared.taken ({} : Sink), start.taken ({} : Sink)]
    let anew := (initial.changed (.writeCell 0 0x56)).changed (.writeRegister 0 9)
    (Leads start past m ∧ lastCompared past = some (0, 0) ∧ m.AtTransfer .jeq 2 ∧
      value m.registers 0 ≠ value m.registers 1 ∧ m.GoesTo 0x40) ∧
    (Driven none anew ∧ lastCompared [] = none ∧ anew.AtTransfer .jne 0 ∧ anew.GoesTo 9) := by
  intro code start compared m past anew
  have run : Leads start past m := (Leads.start.step ({} : Sink)).step ({} : Sink)
  have last : lastCompared past = some (0, 0) := by
    simp only [past, compared, start, code]
    decide +kernel
  have here : m.AtTransfer .jeq 2 := by
    simp only [m, compared, start, code]
    exact ⟨rfl, rfl, rfl, by decide⟩
  have changed : value m.registers 0 ≠ value m.registers 1 ∧ value m.registers 2 = 0x40 := by
    simp only [m, compared, start, code]
    decide +kernel
  have driven : Driven none anew := .change _ (.change _ .initial)
  have here' : anew.AtTransfer .jne 0 := by
    simp only [anew]
    exact ⟨rfl, rfl, rfl, by decide⟩
  have jump := ((branches_of_leads run).1 0 0 last).2.jeq_taken 2 here rfl
  have rested : Leads anew [] anew := .start
  have jump' := ((branches_of_leads rested).2 rfl).2.2 driven |>.jne_taken 0 here' id
  rw [changed.2] at jump
  exact ⟨⟨run, last, here, changed.1, jump⟩, driven, rfl, here', jump'⟩

end Machine

end EightBit
