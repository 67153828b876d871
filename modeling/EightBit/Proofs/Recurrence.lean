/-
# EightBit.Proofs.Recurrence -- a configuration that comes back is an endless loop

What a machine does next depends on its memory, its registers, the program counter and the flag.
The instructions it has carried out are counted, but the count is never looked at; and of sinks that
take every line, one is as good as another.  So machines of one configuration go through the same
instructions and print the same (`step_alike`, `run_alike`).

A machine that comes back to a configuration it has been in therefore does again what it has done
since, block by block (`run_blocks`): it never halts and never faults (`endless_of_return`), every
block prints the same, and a session stops only at its limit.
-/
import EightBit.Proofs.Observation
import EightBit.Proofs.Truncation
import EightBit.Proofs.Window

namespace EightBit

open Manual

set_option autoImplicit false

/-! ## Sinks that take every line -/

namespace Writer

variable {σ : Type} [Writer σ] {sink : σ}

/-- The sink after the lines of some values. -/
def afterLines (sink : σ) (values : List UInt8) : σ :=
  values.foldl (fun sink v => (print sink v).2) sink

/-- Whatever has been printed on it, the sink takes the next line. -/
def NeverFails (sink : σ) : Prop :=
  ∀ values v, (print (afterLines sink values) v).1 = .ok ()

@[simp] theorem afterLines_nil (sink : σ) : afterLines sink [] = sink := rfl

@[simp] theorem afterLines_cons (sink : σ) (v : UInt8) (values : List UInt8) :
    afterLines sink (v :: values) = afterLines (print sink v).2 values := by
  rw [afterLines, List.foldl_cons, afterLines]

theorem NeverFails.print (never : NeverFails sink) (v : UInt8) :
    (Writer.print sink v).1 = .ok () := by
  simpa only [afterLines_nil] using never [] v

theorem NeverFails.after_print (never : NeverFails sink) (v : UInt8) :
    NeverFails (Writer.print sink v).2 := by
  intro values w
  simpa only [afterLines_cons] using never (v :: values) w

theorem NeverFails.printOn (never : NeverFails sink) (value : Option UInt8) :
    ∃ after, Machine.printOn sink value = (.ok (), after) ∧ NeverFails after ∧
      held after = held sink ++ value.elim [] line := by
  cases value with
  | none => exact ⟨sink, rfl, never, by simp⟩
  | some v =>
    have taken : Machine.printOn sink (some v) = (.ok (), (Writer.print sink v).2) := by
      rw [Machine.printOn, ← never.print v]
    exact ⟨_, taken, never.after_print v, Machine.held_of_printOn taken⟩

end Writer

theorem Sink.neverFails {sink : Sink} (free : sink.limit = none) : Writer.NeverFails sink := by
  intro values v
  have print_eq (sink : Sink) (free : sink.limit = none) (w : UInt8) :
      Writer.print sink w = (.ok (), sink.append (Writer.line w)) :=
    Sink.printOn_of_limit_none free (some w)
  induction values generalizing sink with
  | nil => rw [Writer.afterLines_nil, print_eq sink free]
  | cons w rest ih =>
    rw [Writer.afterLines_cons, print_eq sink free]
    exact ih free

namespace Machine

open Writer

variable {σ τ : Type}

/-! ## Configurations -/

/-- Two machines are alike but for the count of instructions. -/
structure SameConfiguration (m n : Machine) : Prop where
  memory : m.memory = n.memory
  registers : m.registers = n.registers
  pc : m.pc = n.pc
  flag : m.flag = n.flag
  status : m.status = n.status

theorem SameConfiguration.eq_recount {m n : Machine} (same : SameConfiguration m n) :
    n = { m with steps := n.steps } := by
  obtain ⟨memory, registers, pc, flag, status, steps⟩ := m
  obtain ⟨memory', registers', pc', flag', status', steps'⟩ := n
  obtain ⟨rfl, rfl, rfl, rfl, rfl⟩ := same
  rfl

theorem sameConfiguration_recount (m : Machine) (steps : Nat) :
    SameConfiguration m { m with steps } :=
  ⟨rfl, rfl, rfl, rfl, rfl⟩

/-- The count is carried along and makes no difference. -/
theorem advance_recount (m : Machine) (steps : Nat) :
    advance { m with steps } =
      (advance m).map fun e => ⟨{ e.machine with steps := steps + 1 }, e.printed⟩ := by
  have fetched : ({ m with steps } : Machine).fetch = m.fetch := rfl
  have refusals (op : Operation) (a b : UInt8) :
      refusal { m with steps } op a b = refusal m op a b := rfl
  have nexts (op : Operation) (a b : UInt8) :
      next { m with steps } op a b = { next m op a b with steps := steps + 1 } := by
    cases op with
    | alu op => cases op <;> rfl
    | transfer op => cases op <;> rfl
    | data op => cases op <;> rfl
  rw [advance, fetched, advance]
  cases m.fetch with
  | error fault => rfl
  | ok i =>
    simp only [bind, Except.bind, refusals, nexts]
    cases refusal m i.op i.a i.b <;> rfl

/-! ## Machines of one configuration -/

variable [Writer σ] [Writer τ]

/-- Two machines of one configuration, on sinks that take every line, have gone the same way and
have printed the same. -/
structure Alike {ρ : Type} (sink : σ) (other : τ) (one : Outcome ρ σ) (two : Outcome ρ τ) :
    Prop where
  result : one.result = two.result
  configuration : SameConfiguration one.machine two.machine
  printed : ∃ out, held one.sink = held sink ++ out ∧ held two.sink = held other ++ out
  never : NeverFails one.sink
  never_other : NeverFails two.sink

theorem step_alike {m n : Machine} (same : SameConfiguration m n) {sink : σ} {other : τ}
    (never : NeverFails sink) (never_other : NeverFails other) :
    Alike sink other (m.step sink) (n.step other) := by
  have unprinted : ∃ out, held sink = held sink ++ out ∧ held other = held other ++ out :=
    ⟨[], by simp⟩
  cases status : m.status with
  | halted =>
    rw [step_of_halted status, step_of_halted (same.status ▸ status)]
    exact ⟨rfl, same, unprinted, never, never_other⟩
  | running =>
    have running : n.status = .running := same.status ▸ status
    have advanced_n := advance_recount m n.steps
    rw [← same.eq_recount] at advanced_n
    cases advanced : advance m with
    | error fault =>
      rw [advanced] at advanced_n
      rw [step_of_advance_error status advanced, step_of_advance_error running advanced_n]
      exact ⟨rfl, same, unprinted, never, never_other⟩
    | ok e =>
      rw [advanced] at advanced_n
      rw [step_of_advance_ok status advanced, step_of_advance_ok running advanced_n]
      obtain ⟨after, taken, still, held_after⟩ := never.printOn e.printed
      obtain ⟨after', taken', still', held_after'⟩ := never_other.printOn e.printed
      simp only [taken, taken']
      exact ⟨rfl, sameConfiguration_recount _ _, ⟨_, held_after, held_after'⟩, still, still'⟩

theorem run_alike {m n : Machine} (same : SameConfiguration m n) {sink : σ} {other : τ}
    (never : NeverFails sink) (never_other : NeverFails other) (bound : Nat) :
    Alike sink other (m.run bound sink) (n.run bound other) := by
  induction bound generalizing m n sink other with
  | zero => exact ⟨rfl, same, ⟨[], by simp [run]⟩, never, never_other⟩
  | succ bound ih =>
    obtain ⟨results, configurations, ⟨out, printed, printed'⟩, still, still'⟩ :=
      step_alike same never never_other
    rcases stepped : m.step sink with ⟨fault | _ | _, m₁, sink₁⟩ <;>
      rcases stepped' : n.step other with ⟨fault' | _ | _, n₁, other₁⟩ <;>
      simp only [stepped, stepped'] at results configurations printed printed' still still' <;>
      cases results <;> simp only [run, stepped, stepped']
    · exact ⟨rfl, configurations, ⟨out, printed, printed'⟩, still, still'⟩
    · obtain ⟨results, later, ⟨more, printed_more, printed_more'⟩, never, never'⟩ :=
        ih configurations still still'
      refine ⟨results, later, ⟨out ++ more, ?_, ?_⟩, never, never'⟩
      · rw [printed_more, printed, List.append_assoc]
      · rw [printed_more', printed', List.append_assoc]
    · exact ⟨rfl, configurations, ⟨out, printed, printed'⟩, still, still'⟩

/-! ## Blocks -/

theorem SameConfiguration.trans {m n o : Machine} (h : SameConfiguration m n)
    (h' : SameConfiguration n o) : SameConfiguration m o :=
  ⟨h.memory.trans h'.memory, h.registers.trans h'.registers, h.pc.trans h'.pc,
    h.flag.trans h'.flag, h.status.trans h'.status⟩

variable {m m' : Machine} {sink sink' : σ} {k : Nat} {out : List UInt8}

/-- A machine that comes back to its configuration does so from every machine of that configuration,
and prints the same on the way. -/
theorem run_block (returns : m.run k sink = ⟨none, m', sink'⟩) (back : SameConfiguration m m')
    (never : NeverFails sink) (printed : held sink' = held sink ++ out) {n : Machine} {other : τ}
    (same : SameConfiguration m n) (never_other : NeverFails other) :
    ∃ n' after, n.run k other = ⟨none, n', after⟩ ∧ SameConfiguration m n' ∧ NeverFails after ∧
      held after = held other ++ out := by
  obtain ⟨result, configuration, ⟨part, first, second⟩, -, still⟩ :=
    run_alike same never never_other k
  rw [returns] at result configuration first
  obtain rfl : out = part := List.append_cancel_left (printed.symm.trans first)
  exact ⟨_, _, run_eq_of_going result.symm, back.trans configuration, still, second⟩

/-- After any number of blocks the machine is back again. -/
theorem run_blocks (returns : m.run k sink = ⟨none, m', sink'⟩) (back : SameConfiguration m m')
    (never : NeverFails sink) (printed : held sink' = held sink ++ out) {other : τ}
    (never_other : NeverFails other) (j : Nat) :
    ∃ n after, m.run (j * k) other = ⟨none, n, after⟩ ∧ SameConfiguration m n ∧
      NeverFails after := by
  induction j with
  | zero =>
    rw [Nat.zero_mul]
    exact ⟨m, other, rfl, sameConfiguration_recount m m.steps, never_other⟩
  | succ j ih =>
    obtain ⟨n, after, executed, same, still⟩ := ih
    obtain ⟨n', after', block, again, still', -⟩ := run_block returns back never printed same still
    rw [Nat.succ_mul, run_add executed]
    exact ⟨n', after', block, again, still'⟩

/-- A machine that comes back to its configuration goes on for ever. -/
theorem endless_of_return (some_steps : 0 < k) (returns : m.run k sink = ⟨none, m', sink'⟩)
    (back : SameConfiguration m m') (never : NeverFails sink)
    (printed : held sink' = held sink ++ out) {other : τ} (never_other : NeverFails other) :
    m.Endless other := by
  intro i
  obtain ⟨n, after, executed, -, -⟩ := run_blocks returns back never printed never_other i
  exact result_run_of_le executed (Nat.le_mul_of_pos_right i some_steps)

/-- What holds of a machine that comes back to its configuration after `k` instructions and prints
`out` on the way: of its execution on a sink, and of the sessions that run it there. -/
structure Recurs (m : Machine) (k : Nat) (out : List UInt8) (sink : σ) : Prop where
  /-- No instruction ever halts or faults. -/
  endless : m.Endless sink
  returns : ∀ j, SameConfiguration m (m.run (j * k) sink).machine
  block : ∀ j, held (m.run ((j + 1) * k) sink).sink = held (m.run (j * k) sink).sink ++ out
  limited : ∀ (s : Session) (limit : Nat), s.maxSteps = some limit → m.steps ≤ limit →
    ∀ (shown : Console) (patience : Nat),
      (s.run patience ⟨m, sink, shown⟩).2 = some (.error (.stepLimit limit)) ∧
        (s.run patience ⟨m, sink, shown⟩).1.machine.steps = limit
  unlimited : ∀ s : Session, s.maxSteps = none →
    ∀ (shown : Console) (patience : Nat), (s.run patience ⟨m, sink, shown⟩).2 = none

/-- **A configuration that comes back is an endless loop.**  Take a running machine that has the
same memory, registers, program counter and flag again when it has carried out `k` instructions on a
sink that takes every line.  On every such sink it then never halts and never faults, prints in every
block of `k` instructions what it prints in the first, and is stopped by any limit that it has not
passed already. -/
theorem recurs_of_return (running : m.status = .running) (some_steps : 0 < k)
    (never : NeverFails sink) (returns : m.run k sink = ⟨none, m', sink'⟩)
    (running' : m'.status = .running) (memory : m.memory = m'.memory)
    (registers : m.registers = m'.registers) (pc : m.pc = m'.pc) (flag : m.flag = m'.flag) :
    ∃ out, held sink' = held sink ++ out ∧
      ∀ {τ : Type} [Writer τ] (other : τ), NeverFails other → m.Recurs k out other := by
  have back : SameConfiguration m m' :=
    ⟨memory, registers, pc, flag, running.trans running'.symm⟩
  obtain ⟨out, printed, -⟩ := (run_alike back never never k).printed
  rw [returns] at printed
  refine ⟨out, printed, ?_⟩
  intro τ _ other never_other
  have blocks := run_blocks returns back never printed never_other
  have endless : m.Endless other :=
    endless_of_return some_steps returns back never printed never_other
  refine ⟨endless, ?_, ?_, ?_, ?_⟩
  · intro j
    obtain ⟨n, after, executed, same, -⟩ := blocks j
    rw [executed]
    exact same
  · intro j
    obtain ⟨n, after, executed, same, still⟩ := blocks j
    obtain ⟨n', after', block, -, -, held_after⟩ := run_block returns back never printed same still
    rw [Nat.succ_mul, run_add executed, block, executed]
    exact held_after
  · intro s limit limited below shown patience
    obtain ⟨verdict, -, steps, -⟩ := Session.run_of_going limited
      (Nat.add_sub_of_le below : (⟨m, other, shown⟩ : Run τ).machine.steps + _ = limit) patience
      (endless _)
    exact ⟨verdict, steps⟩
  · intro s unlimited shown patience
    have ends := Session.endsAs_ticks unlimited (s.bound patience m) ⟨m, other, shown⟩
    exact (ends.going (endless _)).2

set_option maxRecDepth 8000 in
/-- A register is loaded with zero and printed, and the third instruction jumps to the first: the
machine is back. -/
theorem exists_return_of_print : ∃ m m' sink',
    ofProgram [0x82, 0, 0, 0x47, 0, 0x54, 0] = .ok m ∧ m.status = .running ∧ m.steps = 0 ∧
      m.run 3 ({} : Sink) = ⟨none, m', sink'⟩ ∧ SameConfiguration m m' ∧ held sink' = [48, 10] := by
  have fits : ([0x82, 0, 0, 0x47, 0, 0x54, 0] : List UInt8).length ≤ Memory.size := by decide
  obtain ⟨m, loaded, running, fresh⟩ := ofProgram_of_le fits
  obtain ⟨m', sink', returns, back, bytes⟩ : ∃ m' sink', m.run 3 ({} : Sink) = ⟨none, m', sink'⟩ ∧
      SameConfiguration m m' ∧ held sink' = [48, 10] := by
    obtain rfl := Except.ok.inj loaded
    exact ⟨_, _, rfl, ⟨rfl, rfl, rfl, rfl, rfl⟩, rfl⟩
  exact ⟨m, m', sink', loaded, running, fresh, returns, back, bytes⟩

/-- The loop of a load, a print and a jump. -/
theorem print_recurs :
    let program : List UInt8 := [0x82, 0, 0, 0x47, 0, 0x54, 0]
    ∃ m, ofProgram program = .ok m ∧ m.steps = 0 ∧ m.Recurs 3 [48, 10] ({} : Sink) := by
  intro program
  obtain ⟨m, m', sink', loaded, running, fresh, returns, back, bytes⟩ := exists_return_of_print
  have never : NeverFails ({} : Sink) := Sink.neverFails rfl
  obtain ⟨out, printed, recurs⟩ := recurs_of_return running (by decide : 0 < 3) never returns
    (back.status.symm.trans running) back.memory back.registers back.pc back.flag
  obtain rfl : [48, 10] = out := bytes.symm.trans printed
  exact ⟨m, loaded, fresh, recurs _ never⟩

end Machine

end EightBit
