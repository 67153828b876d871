/-
# EightBit.Proofs.Rerun -- what a run says of a program that has halted

A loaded program can be run more than once, with other settings in between (`Session.Conducted`).  A
run that begins on a running machine and ends at the limit leaves it running, so what it reports is
true: the program did not halt (`running_of_reportsLimit`).

A run that begins on a halted machine changes nothing, but it looks at the limit before it looks at
the machine.  So it says that the program did not halt exactly if the count has reached the limit
(`reportsLimit_iff_of_halted`).  `misreports_iff` says that there is no other such case; with the
settings left alone it comes about exactly if the halt was the last instruction that the limit
allowed.
-/
import EightBit.Proofs.Bounds
import EightBit.Proofs.Resumption

namespace EightBit

set_option autoImplicit false

/-- A run that was made: the machine before and after it, and how it ended. -/
structure PastRun where
  before : Machine
  after : Machine
  verdict : Option Verdict

/-- The run ended with the report that the program did not halt. -/
def PastRun.ReportsLimit (p : PastRun) : Prop :=
  ∃ steps, p.verdict = some (.error (.stepLimit steps))

namespace Machine

variable {σ : Type} [Writer σ]

/-- A run that goes on has left the machine running. -/
theorem running_of_run {m m' : Machine} {sink sink' : σ} {k : Nat} (running : m.status = .running)
    (executed : m.run k sink = ⟨none, m', sink'⟩) : m'.status = .running := by
  induction k generalizing m sink with
  | zero =>
    obtain ⟨rfl, -⟩ : m = m' ∧ sink = sink' := by simpa [run] using executed
    exact running
  | succ k ih =>
    obtain ⟨m₁, sink₁, stepped, rest⟩ := step_of_run_succ executed
    exact ih (Session.next_of_step_running stepped) rest

end Machine

namespace Session

open Machine

variable {σ : Type} [Writer σ] {s : Session}

/-- The run of a session from a start, once it has been made. -/
def ran (s : Session) (patience : Nat) (start : Run σ) : PastRun :=
  ⟨start.machine, (s.run patience start).1.machine, (s.run patience start).2⟩

/-! ## Runs at the limit -/

omit [Writer σ] in
theorem limitReached_iff {m : Machine} :
    s.limitReached m = true ↔ ∃ limit, s.maxSteps = some limit ∧ limit ≤ m.steps := by
  simp [limitReached, Option.any_eq_true]

/-- Where the limit has been reached, a run ends at once. -/
theorem run_of_limitReached {start : Run σ} (reached : s.limitReached start.machine = true)
    (patience : Nat) : s.run patience start =
      (s.dump .sometimes start, some (.error (.stepLimit start.machine.steps))) := by
  obtain ⟨limit, limited, le⟩ := limitReached_iff.1 reached
  have ticked := tick_of_le limited le
  have one : s.bound patience start.machine = 0 + 1 := by
    simp only [bound, limited]
    omega
  rw [run, one, ticks_of_isSome (by rw [ticked]; rfl), ticked]

/-- A run of a running machine that ends at the limit leaves it running. -/
theorem running_of_reportsLimit {start : Run σ} {patience : Nat}
    (running : start.machine.status = .running)
    (reports : (s.ran patience start).ReportsLimit) :
    (s.ran patience start).after.status = .running := by
  obtain ⟨steps, ended⟩ := reports
  obtain ⟨-, k, executed⟩ := exists_run_of_stepLimit ended
  exact running_of_run running executed

/-! ## Runs of a halted machine -/

theorem machine_ticks_of_halted {r : Run σ} (halted : r.machine.status = .halted) (bound : Nat) :
    (s.ticks bound r).1.machine = r.machine := by
  have rests := step_of_halted halted r.sink
  cases bound with
  | zero => rfl
  | succ bound =>
    rcases tick_cases s r with ⟨-, ticked⟩ | ⟨-, ⟨m, sink, stepped, -⟩ |
        ⟨m, sink, stepped, ticked⟩ | ⟨fault, sink, stepped, -⟩⟩
    · simp only [ticks, ticked, dump]
    · simp [rests] at stepped
    · obtain ⟨rfl, -⟩ : r.machine = m ∧ r.sink = sink := by simpa [rests] using stepped
      simp only [ticks, ticked]
    · simp [rests] at stepped

/-- A run of a halted machine changes nothing. -/
theorem after_ran_of_halted {start : Run σ} (halted : start.machine.status = .halted)
    (patience : Nat) : (s.ran patience start).after = start.machine :=
  machine_ticks_of_halted halted _

/-- A run of a halted machine reports the limit exactly if the count has reached it. -/
theorem reportsLimit_iff_of_halted {start : Run σ} (halted : start.machine.status = .halted)
    (patience : Nat) :
    (s.ran patience start).ReportsLimit ↔ s.limitReached start.machine = true := by
  constructor
  · rintro ⟨steps, ended⟩
    obtain ⟨reached, -⟩ := exists_run_of_stepLimit ended
    rwa [machine_ticks_of_halted halted] at reached
  · intro reached
    exact ⟨start.machine.steps, congrArg Prod.snd (run_of_limitReached reached patience)⟩

/-- A run that halts a machine under a limit has carried out no more instructions than that. -/
theorem steps_ran_le {limit : Nat} (limited : s.maxSteps = some limit) {start : Run σ}
    {patience : Nat} (running : start.machine.status = .running)
    (halted : (s.ran patience start).after.status = .halted) :
    (s.ran patience start).after.steps ≤ limit := by
  by_cases reached : limit ≤ start.machine.steps
  · -- at the limit the run would not have carried out the halt
    have ended := run_of_limitReached (limitReached_iff.2 ⟨limit, limited, reached⟩) patience
    have kept : (s.ran patience start).after = start.machine := by
      rw [ran, ended]
      rfl
    rw [kept, running] at halted
    cases halted
  · exact steps_ticks_le limited _ (Nat.le_of_not_le reached)

/-! ## Runs one after the other -/

/-- The sessions and machines there can be once a program has been loaded, and settings changed and
runs made in any order, with the runs, the last one first.  Each is on a sink of its own, and may be
followed to its end or not. -/
inductive Conducted : List PastRun → Session → Machine → Prop
  | program {program : List UInt8} {m : Machine} (display : Display)
      (loaded : ofProgram program = .ok m) : Conducted [] { display } m
  | setTrace {past : List PastRun} {s : Session} {m : Machine} (trace : Bool)
      (before : Conducted past s m) : Conducted past { s with trace } m
  | setMaxSteps {past : List PastRun} {s : Session} {m : Machine} (maxSteps : Option Nat)
      (before : Conducted past s m) : Conducted past { s with maxSteps } m
  | run {τ : Type} [Writer τ] {past : List PastRun} {s : Session} {m : Machine} (patience : Nat)
      (sink : τ) (shown : Console) (before : Conducted past s m) :
      Conducted (s.ran patience ⟨m, sink, shown⟩ :: past) s
        (s.ran patience ⟨m, sink, shown⟩).after

/-- A machine that has halted was halted by one of the runs. -/
theorem exists_halting_run {past : List PastRun} {m : Machine} (conducted : Conducted past s m)
    (halted : m.status = .halted) : ∃ p ∈ past, p.before.status = .running ∧ p.after = m := by
  induction conducted with
  | program display loaded =>
    obtain ⟨memory, -, rfl⟩ := map_eq_ok.1 loaded
    cases halted
  | setTrace trace _ ih => exact ih halted
  | setMaxSteps maxSteps _ ih => exact ih halted
  | @run τ _ past s m patience sink shown _ ih =>
    cases status : m.status with
    | running => exact ⟨_, List.mem_cons_self, status, rfl⟩
    | halted =>
      have same : (s.ran patience ⟨m, sink, shown⟩).after = m := after_ran_of_halted status patience
      obtain ⟨p, member, running, after⟩ := ih status
      exact ⟨p, List.mem_cons_of_mem _ member, running, after.trans same.symm⟩

/-- **When a halted program is said not to have halted.**  Take a program that has been loaded and
run in any way, and run it once more.

* The run reports the limit and leaves the machine halted exactly if the machine had halted before
  and its count has reached the limit.
* If it had halted before, an earlier run has halted it, and this one changes nothing.
* If this run halts it, one more run with the same settings reports the limit exactly if the halt
  was the last instruction that the limit allows. -/
theorem misreports_iff {past : List PastRun} {m : Machine} (conducted : Conducted past s m)
    (patience : Nat) (sink : σ) (shown : Console) :
    let p := s.ran patience ⟨m, sink, shown⟩
    (p.ReportsLimit ∧ p.after.status = .halted ↔
      m.status = .halted ∧ ∃ limit, s.maxSteps = some limit ∧ limit ≤ m.steps) ∧
    (m.status = .halted →
      p.after = m ∧ ∃ q ∈ past, q.before.status = .running ∧ q.after = m) ∧
    (m.status = .running → p.after.status = .halted →
      ∀ (τ : Type) [Writer τ] (patience' : Nat) (sink' : τ) (shown' : Console),
        (s.ran patience' ⟨p.after, sink', shown'⟩).ReportsLimit ↔
          s.maxSteps = some p.after.steps) := by
  intro p
  refine ⟨⟨?_, ?_⟩, ?_, ?_⟩
  · rintro ⟨reports, halted⟩
    cases status : m.status with
    | running =>
      have still : p.after.status = .running := running_of_reportsLimit status reports
      simp [still] at halted
    | halted =>
      exact ⟨rfl, limitReached_iff.1 ((reportsLimit_iff_of_halted status patience).1 reports)⟩
  · rintro ⟨halted, reached⟩
    have kept : p.after = m := after_ran_of_halted halted patience
    exact ⟨(reportsLimit_iff_of_halted halted patience).2 (limitReached_iff.2 reached),
      by rw [kept, halted]⟩
  · intro halted
    exact ⟨after_ran_of_halted halted patience, exists_halting_run conducted halted⟩
  · intro running halted τ _ patience' sink' shown'
    let again : Run τ := ⟨p.after, sink', shown'⟩
    have rests : again.machine.status = .halted := halted
    rw [reportsLimit_iff_of_halted rests, limitReached_iff]
    constructor
    · rintro ⟨limit, limited, reached⟩
      have within : p.after.steps ≤ limit := steps_ran_le limited running halted
      rw [limited, Nat.le_antisymm reached within]
    · intro limited
      exact ⟨p.after.steps, limited, Nat.le_refl _⟩

set_option maxRecDepth 8000 in
/-- A program that halts at once, under a limit of two: no run of it reports the limit. -/
theorem misreports_iff_below :
    let s : Session := { maxSteps := some 2 }
    ∃ m, ofProgram [0b0000_0001] = .ok m ∧
      let first := s.ran 0 ⟨m, ({} : Sink), {}⟩
      let again := s.ran 0 ⟨first.after, ({} : Sink), {}⟩
      Conducted [first] s first.after ∧ first.after.status = .halted ∧
        ¬ (first.ReportsLimit ∧ first.after.status = .halted) ∧ ¬ again.ReportsLimit := by
  intro s
  have small : ([0b0000_0001] : List UInt8).length ≤ Memory.size := by decide
  obtain ⟨m, loaded, running, fresh⟩ := ofProgram_of_le small
  have start : Conducted [] s m := (Conducted.program {} loaded).setMaxSteps (some 2)
  obtain ⟨first_iff, -, again_iff⟩ := misreports_iff start 0 ({} : Sink) {}
  have ends : (s.ran 0 ⟨m, ({} : Sink), {}⟩).after.status = .halted ∧
      (s.ran 0 ⟨m, ({} : Sink), {}⟩).after.steps = 1 := by
    obtain rfl := Except.ok.inj loaded
    simp only [s]
    exact ⟨rfl, rfl⟩
  refine ⟨m, loaded, start.run 0 ({} : Sink) {}, ends.1, ?_, ?_⟩
  · rw [first_iff, running]
    simp
  · rw [again_iff running ends.1, ends.2]
    simp [s]

set_option maxRecDepth 8000 in
/-- Under a limit of one, the second run says that the program did not halt within one step,
although the first has ended well with the halt. -/
theorem halted_misreported :
    let s : Session := { maxSteps := some 1 }
    ∃ m, ofProgram [0b0000_0001] = .ok m ∧
      let first := s.ran 0 ⟨m, ({} : Sink), {}⟩
      let again := s.ran 0 ⟨first.after, ({} : Sink), {}⟩
      Conducted [again, first] s again.after ∧
        first.verdict = some (.ok ()) ∧ first.after.status = .halted ∧
        again.verdict = some (.error (.stepLimit 1)) ∧ again.after.status = .halted := by
  intro s
  have small : ([0b0000_0001] : List UInt8).length ≤ Memory.size := by decide
  obtain ⟨m, loaded, -⟩ := ofProgram_of_le small
  have start : Conducted [] s m := (Conducted.program {} loaded).setMaxSteps (some 1)
  refine ⟨m, loaded, (start.run 0 ({} : Sink) {}).run 0 ({} : Sink) {}, ?_⟩
  obtain rfl := Except.ok.inj loaded
  simp only [s]
  exact ⟨rfl, rfl, rfl, rfl⟩

end Session

end EightBit
