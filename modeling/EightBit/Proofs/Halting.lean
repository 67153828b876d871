/-
# EightBit.Proofs.Halting -- only a halt ends a machine, and it ends it for good

A host operates a machine: it lets it take steps, which may succeed or fault, and it loads programs,
writes cells and sets registers in between (`Machine.Operated`).  Whatever it does, a running
machine halts in a step exactly if the byte at its program counter is that of a halt
(`Machine.AtHalt`, `status_step_iff`), and such a step changes nothing but the status, the program
counter and the count.

A halted machine takes no more instructions, and the host has no way to its status, its program
counter, its flag or its count.  So all later steps and runs succeed and do nothing
(`kept_of_operated`).  The count of a machine has grown by one for each step that began on a running
machine and succeeded, and for no other (`steps_of_operated`).
-/
import EightBit.Proofs.Bounds
import EightBit.Proofs.Footprint

namespace EightBit

open Manual

set_option autoImplicit false

/-- The step began on a running machine and succeeded. -/
def PastStep.Counts (p : PastStep) : Bool :=
  p.machine.status = .running && p.result.isOk

namespace Machine

/-! ## Steps at a halt -/

/-- The machine is running, and the byte at its program counter is that of a halt. -/
structure AtHalt (m : Machine) : Prop where
  running : m.status = .running
  inside : m.pc ≤ 255
  byte : cell m.memory m.pc = 0b0000_0001

variable {σ : Type} [Writer σ]

theorem fetch_of_atHalt {m : Machine} (here : AtHalt m) :
    m.fetch = .ok ⟨(Operation.data .hlt).byte, .data .hlt, 0, 0⟩ := by
  have inside : m.pc < Memory.size := Nat.lt_succ_of_le here.inside
  have read : m.memory.read m.pc = .ok 0b0000_0001 := by
    rw [Memory.read_of_lt inside, ← cell_of_lt m.memory inside, here.byte]
  have decoded : Operation.decode? 0b0000_0001 = some (.data .hlt) := rfl
  have none_declared : Layout.operandCount 0b0000_0001 = 0 := rfl
  simp [fetch, read, Operation.decode, decoded, operand, none_declared, bind, Except.bind, pure,
    Except.pure, Operation.byte, DataOp.byte]

theorem atHalt_of_fetch {m : Machine} (running : m.status = .running) {i : Instruction}
    (fetched : m.fetch = .ok i) (halts : i.op = .data .hlt) : AtHalt m := by
  obtain ⟨read, -⟩ := fetch_eq_ok fetched
  rw [halts] at read
  exact ⟨running, Nat.le_of_lt_succ (Memory.lt_of_read read), cell_of_read read⟩

/-- A halt sets the status, goes behind itself, is counted, and does nothing else. -/
theorem step_of_atHalt {m : Machine} (here : AtHalt m) (sink : σ) :
    m.step sink =
      ⟨.ok .halted, { m with status := .halted, pc := m.pc + 1, steps := m.steps + 1 }, sink⟩ := by
  have allowed : refusal m (.data .hlt) 0 0 = none := rfl
  rw [step_of_fetch_ok here.running (fetch_of_atHalt here), execute_of_allowed allowed]
  rfl

/-- A running machine halts in a step exactly if it is at a halt. -/
theorem status_step_iff (m : Machine) (sink : σ) :
    (m.step sink).machine.status = .halted ↔ m.status = .halted ∨ AtHalt m := by
  constructor
  · intro halted
    rcases taken_cases m sink with ⟨i, carried, -, after⟩ | ⟨-, same⟩
    · obtain ⟨running, fetched, -⟩ := executed_taken_iff.1 carried
      rw [after, status_next] at halted
      by_cases halts : i.op = .data .hlt
      · exact .inr (atHalt_of_fetch running fetched halts)
      · rw [if_neg halts] at halted
        exact .inl halted
    · rw [same] at halted
      exact .inl halted
  · rintro (halted | here)
    · rw [step_of_halted halted, halted]
    · rw [step_of_atHalt here]

/-! ## What is counted -/

/-- A step counts exactly if it carries out an instruction. -/
theorem counts_taken_iff {m : Machine} {sink : σ} :
    (m.taken sink).Counts = true ↔ ∃ i, (m.taken sink).executed = some i := by
  have counts : (m.taken sink).Counts = true ↔
      m.status = .running ∧ ∃ status, (m.step sink).result = .ok status := by
    unfold PastStep.Counts taken
    cases (m.step sink).result <;> simp [Except.isOk, Except.toBool]
  rw [counts]
  constructor
  · rintro ⟨running, status, done⟩
    obtain ⟨op, a, b, fetched, -⟩ := exists_next_of_step_ok running done
    exact ⟨_, executed_taken_iff.2 ⟨running, fetched, status, done⟩⟩
  · rintro ⟨i, carried⟩
    obtain ⟨running, -, done⟩ := executed_taken_iff.1 carried
    exact ⟨running, done⟩

theorem steps_step (m : Machine) (sink : σ) :
    (m.step sink).machine.steps = m.steps + if (m.taken sink).Counts then 1 else 0 := by
  rcases taken_cases m sink with ⟨i, carried, -, after⟩ | ⟨nothing, same⟩
  · rw [after, if_pos (counts_taken_iff.2 ⟨i, carried⟩)]
    rfl
  · have uncounted : ¬ (m.taken sink).Counts = true := by simp [counts_taken_iff, nothing]
    rw [same, if_neg uncounted, Nat.add_zero]

/-! ## Operated machines -/

/-- The machines there can be after a host has operated one, with the steps that were taken, the
last one first.  Each step is on a sink of its own; steps and changes may succeed or fail. -/
inductive Operated (start : Machine) : List PastStep → Machine → Prop
  | start : Operated start [] start
  | step {τ : Type} [Writer τ] {past : List PastStep} {m : Machine} (sink : τ)
      (before : Operated start past m) :
      Operated start (m.taken sink :: past) (m.step sink).machine
  | change {past : List PastStep} {m : Machine} (call : HostCall)
      (before : Operated start past m) : Operated start past (m.changed call)

/-- A run is a number of steps. -/
theorem exists_operated_run (bound : Nat) (sink : σ) {start m : Machine} {past : List PastStep}
    (operated : Operated start past m) :
    ∃ more, Operated start (more ++ past) (m.run bound sink).machine := by
  induction bound generalizing m sink past with
  | zero => exact ⟨[], operated⟩
  | succ bound ih =>
    have once := operated.step sink
    rcases stepped : m.step sink with ⟨_ | _ | _, m', sink'⟩ <;> rw [stepped] at once
    · exact ⟨[m.taken sink], by simpa only [run, stepped, List.singleton_append] using once⟩
    · obtain ⟨more, further⟩ := ih sink' once
      refine ⟨more ++ [m.taken sink], ?_⟩
      simpa only [run, stepped, List.append_assoc, List.singleton_append] using further
    · exact ⟨[m.taken sink], by simpa only [run, stepped, List.singleton_append] using once⟩

/-- A machine has halted after some steps exactly if it had at the start, or one of the steps was at
a halt. -/
theorem status_of_operated {start m : Machine} {past : List PastStep}
    (operated : Operated start past m) :
    m.status = .halted ↔ start.status = .halted ∨ ∃ p ∈ past, p.machine.AtHalt := by
  induction operated with
  | start => simp
  | @step τ _ past m sink before ih =>
    have split : (∃ p ∈ m.taken sink :: past, p.machine.AtHalt) ↔
        m.AtHalt ∨ ∃ p ∈ past, p.machine.AtHalt := by
      simp only [List.mem_cons, exists_eq_or_imp]
      rfl
    rw [status_step_iff, ih, split, or_assoc]
    exact or_congr_right or_comm
  | @change past m call before ih =>
    obtain ⟨memory, registers, after⟩ := exists_changed_eq m call
    rw [after, ← ih]

theorem steps_of_operated {start m : Machine} {past : List PastStep}
    (operated : Operated start past m) :
    m.steps = start.steps + past.countP PastStep.Counts := by
  induction operated with
  | start => rfl
  | @step τ _ past m sink before ih => rw [steps_step, ih, List.countP_cons, Nat.add_assoc]
  | @change past m call before ih =>
    obtain ⟨memory, registers, after⟩ := exists_changed_eq m call
    rw [after]
    exact ih

/-! ## After the halt -/

/-- Every step and every run of the machine succeeds, and does nothing to it or to the sink. -/
structure AtRest (m : Machine) : Prop where
  step : ∀ (τ : Type) [Writer τ] (sink : τ), m.step sink = ⟨.ok .halted, m, sink⟩
  run : ∀ (τ : Type) [Writer τ] (sink : τ) (bound : Nat),
    m.run (bound + 1) sink = ⟨some (.ok ()), m, sink⟩

theorem atRest_of_halted {m : Machine} (halted : m.status = .halted) : AtRest m where
  step _ _ sink := step_of_halted halted sink
  run _ _ sink bound := by simp only [Machine.run, step_of_halted halted sink]

/-- Operating a halted machine changes what the host writes, and nothing else. -/
theorem kept_of_operated {m later : Machine} {past : List PastStep} (halted : m.status = .halted)
    (operated : Operated m past later) :
    ∃ memory registers, later = { m with memory, registers } := by
  induction operated with
  | start => exact ⟨m.memory, m.registers, rfl⟩
  | @step τ _ past later sink before ih =>
    obtain ⟨memory, registers, same⟩ := ih
    have still : later.status = .halted := by rw [same, halted]
    exact ⟨memory, registers, by rw [step_of_halted still, same]⟩
  | @change past later call before ih =>
    obtain ⟨memory, registers, same⟩ := ih
    obtain ⟨memory', registers', after⟩ := exists_changed_eq later call
    exact ⟨memory', registers', by rw [after, same]⟩

/-- **Only a halt ends a machine, and it ends it for good.**  Take a machine that a host has
operated in any way.

* It goes from running to halted in a step exactly if it is at a halt, and that step changes its
  status, its program counter and its count only.
* It has halted exactly if it had at the start, or one of the steps was at a halt.
* Once it has halted, every step and run of it succeeds and does nothing to it or to the sink, also
  after further changes by the host.
* Its count has grown by the number of steps that began on a running machine and succeeded. -/
theorem halted_of_operated {start m : Machine} {past : List PastStep}
    (operated : Operated start past m) :
    (∀ (τ : Type) [Writer τ] (sink : τ),
      (m.status = .running ∧ (m.step sink).machine.status = .halted ↔ AtHalt m) ∧
      (AtHalt m → m.step sink =
        ⟨.ok .halted, { m with status := .halted, pc := m.pc + 1, steps := m.steps + 1 }, sink⟩) ∧
      ∀ bound, ∃ more, Operated start (more ++ past) (m.run bound sink).machine) ∧
    (m.status = .halted ↔ start.status = .halted ∨ ∃ p ∈ past, p.machine.AtHalt) ∧
    (m.status = .halted → ∀ past' later, Operated m past' later →
      later.status = .halted ∧ later.pc = m.pc ∧ later.flag = m.flag ∧ later.steps = m.steps ∧
        AtRest later) ∧
    m.steps = start.steps + past.countP PastStep.Counts := by
  refine ⟨fun τ _ sink => ⟨?_, fun here => step_of_atHalt here sink,
    fun bound => exists_operated_run bound sink operated⟩, status_of_operated operated, ?_,
    steps_of_operated operated⟩
  · constructor
    · rintro ⟨running, halted⟩
      rcases (status_step_iff m sink).1 halted with already | here
      · simp [running] at already
      · exact here
    · intro here
      exact ⟨here.running, (status_step_iff m sink).2 (.inr here)⟩
  · intro halted past' later operated'
    obtain ⟨memory, registers, same⟩ := kept_of_operated halted operated'
    have still : later.status = .halted := by rw [same, halted]
    exact ⟨still, by rw [same], by rw [same], by rw [same], atRest_of_halted still⟩

/-- A new machine faults at its first byte, which is no instruction.  The host writes a halt there,
the next step halts the machine, and writing another instruction behind it makes no difference. -/
theorem halted_of_operated_patched :
    let faulted := (initial.step ({} : Sink)).machine
    let patched := faulted.changed (.writeCell 0 0b0000_0001)
    let halted := (patched.step ({} : Sink)).machine
    let later := halted.changed (.writeCell 1 0x47)
    let past := [patched.taken ({} : Sink), initial.taken ({} : Sink)]
    Operated initial past halted ∧ patched.AtHalt ∧ halted.status = .halted ∧ halted.steps = 1 ∧
      Operated halted [] later ∧ later ≠ halted ∧
      later.step ({} : Sink) = ⟨.ok .halted, later, {}⟩ := by
  intro faulted patched halted later past
  have operated : Operated initial past halted :=
    ((Operated.start.step ({} : Sink)).change (.writeCell 0 0b0000_0001)).step ({} : Sink)
  have changed : Operated halted [] later := Operated.start.change (.writeCell 1 0x47)
  have here : patched.AtHalt := by
    simp only [patched, faulted]
    exact ⟨rfl, by decide, rfl⟩
  obtain ⟨-, status, after, counted⟩ := halted_of_operated operated
  have has_halted : halted.status = .halted := status.2 (.inr ⟨_, List.mem_cons_self, here⟩)
  have one : past.countP PastStep.Counts = 1 := by
    simp only [past, patched, faulted]
    decide +kernel
  have differs : later ≠ halted := by
    intro same
    have read : cell later.memory 1 = cell halted.memory 1 := by rw [same]
    revert read
    simp only [later, halted, patched, faulted]
    decide +kernel
  obtain ⟨-, -, -, -, rests⟩ := after has_halted [] later changed
  exact ⟨operated, here, has_halted, counted.trans (by rw [one]; rfl), changed, differs,
    rests.step Sink {}⟩

end Machine

end EightBit
