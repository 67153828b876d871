/-
# EightBit.Session -- running a program under a limit and on a display

A session fixes how a program is run: whether every instruction is traced, how many instructions it
may carry out, and how diagnostics are shown.  A run is what there is at a moment: the machine, the
sink it prints to, and what diagnostics have been shown.

A run advances in ticks (`Session.tick`).  A tick first looks at the limit; below it the next
instruction is traced and attempted (`Session.attempt`).  A tick ends the run with a verdict when
the limit is reached, when the machine halts (the sink is then flushed) or when the step faults.
`Session.run` ticks to the end: a limit bounds the number of ticks, and a run without a limit is
followed for as long as the caller has patience.
-/
import EightBit.Machine.Step
import EightBit.Machine.Trace
import EightBit.Report
import EightBit.Terminal.RegisterDump

namespace EightBit

set_option autoImplicit false

/-- Why a run ended other than by a halt and a flush. -/
inductive RunError where
  /-- The limit was reached after `steps` instructions. -/
  | stepLimit (steps : Nat)
  | fault (pc : Nat) (cause : Fault)
  | output (cause : SinkError)
  deriving DecidableEq, Repr

def RunError.report : RunError → Report
  | stepLimit steps => {
      message := "Program did not halt within " ++ Numeral.decimal steps ++ " steps"
      code := some "run::step_limit"
      help := some "raise `--max-steps` if the program needs longer to finish" }
  | fault pc cause => {
      message := "Machine fault at address 0x" ++ Numeral.hex 2 pc ++ ": " ++ cause.message
      code := some "run::fault" }
  | output cause => {
      message := (Fault.output cause).message
      code := some "run::output" }

abbrev Verdict : Type := Except RunError Unit

/-- How a program is run. -/
structure Session where
  trace : Bool := false
  maxSteps : Option Nat := none
  display : Display := {}
  deriving DecidableEq, Repr

/-- What there is at a moment of a run. -/
structure Run (σ : Type := Sink) where
  machine : Machine
  sink : σ
  shown : Console := {}
  deriving DecidableEq, Repr

namespace Session

variable {σ : Type}

/-- Whether a machine has carried out as many instructions as it may. -/
def limitReached (s : Session) (m : Machine) : Bool :=
  s.maxSteps.any (· ≤ m.steps)

/-- What tracing the next instruction puts on the streams. -/
def showTrace (s : Session) (m : Machine) : Console :=
  if s.trace then s.display.printLine (.diagnostic .always) m.trace else {}

/-- The run after a register dump. -/
def dump (s : Session) (wanted : Wanted) (r : Run σ) : Run σ :=
  { r with shown := r.shown ++ s.display.registers (.diagnostic wanted) r.machine }

/-- The verdict on a machine that has halted, and the sink after it has been flushed. -/
def halt [Writer σ] (sink : σ) : Verdict × σ :=
  let (flushed, sink) := Writer.flush sink
  (flushed.mapError .output, sink)

/-- What the next instruction makes of a run, unless the limit forbids to attempt it. -/
def attempt [Writer σ] (s : Session) (r : Run σ) :
    Option (Machine.Outcome (Except Fault Status) σ) :=
  if s.limitReached r.machine then none else some (r.machine.step r.sink)

/-- One round of a run: the run after it, and the verdict if it is the last. -/
def tick [Writer σ] (s : Session) (r : Run σ) : Run σ × Option Verdict :=
  let shown := r.shown ++ s.showTrace r.machine
  match s.attempt r with
  | none => (s.dump .sometimes r, some (.error (.stepLimit r.machine.steps)))
  | some ⟨.ok .running, machine, sink⟩ => (⟨machine, sink, shown⟩, none)
  | some ⟨.ok .halted, machine, sink⟩ =>
    let (verdict, sink) := halt sink
    (⟨machine, sink, shown⟩, some verdict)
  | some ⟨.error fault, machine, sink⟩ =>
    (s.dump .always ⟨machine, sink, shown⟩, some (.error (.fault machine.pc fault)))

/-- Tick until there is a verdict, `bound` times at most. -/
def ticks [Writer σ] (s : Session) (bound : Nat) (r : Run σ) : Run σ × Option Verdict :=
  match bound with
  | 0 => (r, none)
  | bound + 1 =>
    match s.tick r with
    | (r, none) => s.ticks bound r
    | (r, some verdict) => (r, some verdict)

/-- The ticks to follow a machine for: with a limit, one for each instruction left and one to see
that none is left. -/
def bound (s : Session) (patience : Nat) (m : Machine) : Nat :=
  match s.maxSteps with
  | some limit => limit - m.steps + 1
  | none => patience

/-- Run to the end, or as long as patience lasts when there is no limit. -/
def run [Writer σ] (s : Session) (patience : Nat) (r : Run σ) : Run σ × Option Verdict :=
  s.ticks (s.bound patience r.machine) r

end Session

end EightBit
