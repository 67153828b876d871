/-
# EightBit.Proofs.Limit -- a limit cuts a run short and does nothing else

Without a limit a machine is stepped until it halts or faults, and after a halt the sink is flushed.
That execution is `Machine.run` for a growing number of steps: it halts (`Machine.HaltsAt`), faults
(`Machine.FaultsAfter`), or goes on (`Machine.Endless`).

A session follows it instruction by instruction as long as its limit leaves room
(`Session.HasRoom`, `Session.ticks_of_run`).  So `Session.run_under_limit` can say what a session
under a limit ends with: what the unlimited execution ends with if there is room for that, and
`Session.CutShort` otherwise.  A halt may be the last instruction under the limit; a fault after the
last one is not seen.
-/
import EightBit.Proofs.Step
import EightBit.Session

namespace EightBit

open Manual

set_option autoImplicit false

namespace Machine

variable {σ : Type} [Writer σ]

/-! ## Execution without a limit -/

/-- The `k`-th instruction is the first that halts the machine, and leaves machine and sink so. -/
def HaltsAt (m : Machine) (sink : σ) (k : Nat) (m' : Machine) (sink' : σ) : Prop :=
  ∃ j before mid, k = j + 1 ∧ m.run j sink = ⟨none, before, mid⟩ ∧
    before.step mid = ⟨.ok .halted, m', sink'⟩

/-- After `k` instructions that leave the machine running, the next one faults and leaves machine
and sink so. -/
def FaultsAfter (m : Machine) (sink : σ) (k : Nat) (fault : Fault) (m' : Machine) (sink' : σ) :
    Prop :=
  ∃ before mid, m.run k sink = ⟨none, before, mid⟩ ∧ before.step mid = ⟨.error fault, m', sink'⟩

/-- The machine never halts and never faults. -/
def Endless (m : Machine) (sink : σ) : Prop :=
  ∀ k, (m.run k sink).result = none

theorem run_eq_of_going {m : Machine} {sink : σ} {k : Nat} (going : (m.run k sink).result = none) :
    m.run k sink = ⟨none, (m.run k sink).machine, (m.run k sink).sink⟩ := by
  rw [← going]

theorem run_succ_of_running {m m₁ : Machine} {sink sink₁ : σ}
    (h : m.step sink = ⟨.ok .running, m₁, sink₁⟩) (bound : Nat) :
    m.run (bound + 1) sink = m₁.run bound sink₁ := by
  simp [run, h]

/-- A run that is still going has begun with a step that leaves the machine running. -/
theorem step_of_run_succ {m m' : Machine} {sink sink' : σ} {bound : Nat}
    (h : m.run (bound + 1) sink = ⟨none, m', sink'⟩) :
    ∃ m₁ sink₁, m.step sink = ⟨.ok .running, m₁, sink₁⟩ ∧
      m₁.run bound sink₁ = ⟨none, m', sink'⟩ := by
  rcases stepped : m.step sink with ⟨_ | _ | _, m₁, sink₁⟩
  · simp [run, stepped] at h
  · exact ⟨m₁, sink₁, rfl, by simpa [run, stepped] using h⟩
  · simp [run, stepped] at h

/-- A run goes on from where a shorter one has come to. -/
theorem run_add {m m' : Machine} {sink sink' : σ} {j : Nat}
    (h : m.run j sink = ⟨none, m', sink'⟩) (k : Nat) : m.run (j + k) sink = m'.run k sink' := by
  induction j generalizing m sink with
  | zero =>
    obtain ⟨rfl, rfl⟩ : m = m' ∧ sink = sink' := by simpa [run] using h
    rw [Nat.zero_add]
  | succ j ih =>
    obtain ⟨m₁, sink₁, stepped, rest⟩ := step_of_run_succ h
    rw [Nat.add_right_comm, run_succ_of_running stepped, ih rest]

/-- A shorter run of a machine that is still running leaves it running. -/
theorem result_run_of_le {j k : Nat} {m m' : Machine} {sink sink' : σ}
    (h : m.run k sink = ⟨none, m', sink'⟩) (le : j ≤ k) : (m.run j sink).result = none := by
  induction j generalizing m sink k with
  | zero => rfl
  | succ j ih =>
    obtain ⟨k, rfl⟩ : ∃ i, k = i + 1 := Nat.exists_eq_add_one_of_ne_zero (by omega)
    obtain ⟨m₁, sink₁, stepped, rest⟩ := step_of_run_succ h
    rw [run_succ_of_running stepped]
    exact ih rest (by omega)

/-- There are three ways an execution can go. -/
theorem halts_or_faults_or_endless (m : Machine) (sink : σ) :
    (∃ k m' sink', m.HaltsAt sink k m' sink') ∨
    (∃ k fault m' sink', m.FaultsAfter sink k fault m' sink') ∨ m.Endless sink := by
  by_cases endless : m.Endless sink
  · exact .inr (.inr endless)
  · obtain ⟨k, ends⟩ := Classical.not_forall.1 endless
    induction k with
    | zero => exact absurd rfl ends
    | succ k ih =>
      by_cases going : (m.run k sink).result = none
      · have run_k := run_eq_of_going going
        rcases stepped : (m.run k sink).machine.step (m.run k sink).sink
          with ⟨fault | _ | _, m', sink'⟩
        · exact .inr (.inl ⟨k, fault, m', sink', _, _, run_k, stepped⟩)
        · rw [run_add run_k 1] at ends
          simp [run, stepped] at ends
        · exact .inl ⟨k + 1, m', sink', k, _, _, rfl, run_k, stepped⟩
      · exact ih going

/-- A step that leaves the machine running counts one instruction. -/
theorem steps_of_step_running {m m' : Machine} {sink sink' : σ}
    (h : m.step sink = ⟨.ok .running, m', sink'⟩) : m'.steps = m.steps + 1 := by
  rcases step_cases m sink with ⟨-, stepped⟩ | ⟨-, f, -, stepped⟩ |
      ⟨-, e, after, advanced, -, stepped⟩ | ⟨-, e, cause, after, -, -, stepped⟩
  · simp [stepped] at h
  · simp [stepped] at h
  · obtain ⟨op, a, b, -, -, rfl⟩ := advance_eq_ok advanced
    obtain ⟨-, rfl, -⟩ : _ ∧ _ ∧ _ := by simpa [stepped] using h
    rfl
  · simp [stepped] at h

theorem steps_of_run {m m' : Machine} {sink sink' : σ} {k : Nat}
    (h : m.run k sink = ⟨none, m', sink'⟩) : m'.steps = m.steps + k := by
  induction k generalizing m sink with
  | zero =>
    obtain ⟨rfl, -⟩ : m = m' ∧ sink = sink' := by simpa [run] using h
    rfl
  | succ k ih =>
    obtain ⟨m₁, sink₁, stepped, rest⟩ := step_of_run_succ h
    rw [ih rest, steps_of_step_running stepped]
    omega

/-- No step counts more than one instruction. -/
theorem steps_step_le (m : Machine) (sink : σ) : (m.step sink).machine.steps ≤ m.steps + 1 := by
  rcases step_cases m sink with ⟨-, stepped⟩ | ⟨-, f, -, stepped⟩ |
      ⟨-, e, after, advanced, -, stepped⟩ | ⟨-, e, cause, after, -, -, stepped⟩
  · simp [stepped]
  · simp [stepped]
  · obtain ⟨op, a, b, -, -, rfl⟩ := advance_eq_ok advanced
    rw [stepped]
    exact Nat.le_refl _
  · simp [stepped]

/-- A program that fits can be loaded, and the machine has then carried out nothing. -/
theorem ofProgram_of_le {program : List UInt8} (fits : program.length ≤ Memory.size) :
    ∃ m, ofProgram program = .ok m ∧ m.status = .running ∧ m.steps = 0 := by
  unfold ofProgram load Memory.load
  rw [if_pos fits]
  exact ⟨_, rfl, rfl, rfl⟩

end Machine

namespace Session

open Machine

variable {σ : Type} [Writer σ] {s : Session} {limit : Nat}

/-! ## Execution in a session -/

/-- The machines whose next instruction is attempted in at most `bound` ticks, in order. -/
def attempts (s : Session) (bound : Nat) (r : Run σ) : List Machine :=
  match bound with
  | 0 => []
  | bound + 1 =>
    match s.attempt r, s.tick r with
    | none, _ => []
    | some _, (r', none) => r.machine :: s.attempts bound r'
    | some _, (_, some _) => [r.machine]

/-- The run of a machine ended with the limit: machine and sink are those after `limit`
instructions, each of which left the machine running, and no further one was attempted. -/
structure CutShort (s : Session) (limit patience : Nat) (start : Run σ) : Prop where
  verdict : (s.run patience start).2 = some (.error (.stepLimit limit))
  executed : start.machine.run limit start.sink =
    ⟨none, (s.run patience start).1.machine, (s.run patience start).1.sink⟩
  steps : (s.run patience start).1.machine.steps = limit
  attempted : s.attempts (s.bound patience start.machine) start =
    (List.range limit).map fun k => (start.machine.run k start.sink).machine

/-- The session lets a machine carry out `k` more instructions; without a limit there is room for
any number of them. -/
def HasRoom (s : Session) (m : Machine) (k : Nat) : Prop :=
  ∀ limit ∈ s.maxSteps, m.steps + k ≤ limit

theorem hasRoom_of_le (limited : s.maxSteps = some limit) {m : Machine} {k : Nat}
    (room : m.steps + k ≤ limit) : s.HasRoom m k := by
  intro other limited'
  obtain rfl : limit = other := Option.some.inj (limited.symm.trans limited')
  exact room

theorem HasRoom.mono {m : Machine} {j k : Nat} (room : s.HasRoom m k) (le : j ≤ k) :
    s.HasRoom m j :=
  fun limit limited => Nat.le_trans (Nat.add_le_add_left le _) (room limit limited)

/-- The instructions carried out take up room. -/
theorem HasRoom.of_run {m m' : Machine} {sink sink' : σ} {j k : Nat} (room : s.HasRoom m (j + k))
    (executed : m.run j sink = ⟨none, m', sink'⟩) : s.HasRoom m' k := by
  intro limit limited
  have below := room limit limited
  rw [steps_of_run executed]
  omega

/-- A session ticks until there is no room left, and once more. -/
theorem lt_bound_of_hasRoom {m : Machine} {k patience : Nat} (room : s.HasRoom m k)
    (patient : s.maxSteps = none → k < patience) : k < s.bound patience m := by
  unfold bound
  cases limited : s.maxSteps with
  | none => exact patient limited
  | some limit =>
    have below := room limit limited
    simp only
    omega

theorem attempt_of_hasRoom {r : Run σ} (room : s.HasRoom r.machine 1) :
    s.attempt r = some (r.machine.step r.sink) := by
  unfold attempt limitReached
  cases limited : s.maxSteps with
  | none => rfl
  | some limit =>
    have below := room limit limited
    have not_reached : ¬ limit ≤ r.machine.steps := by omega
    simp [not_reached]

theorem attempt_of_le (limited : s.maxSteps = some limit) {r : Run σ}
    (reached : limit ≤ r.machine.steps) : s.attempt r = none := by
  simp [attempt, limitReached, limited, reached]

theorem tick_of_le (limited : s.maxSteps = some limit) {r : Run σ}
    (reached : limit ≤ r.machine.steps) :
    s.tick r = (s.dump .sometimes r, some (.error (.stepLimit r.machine.steps))) := by
  simp only [tick, attempt_of_le limited reached]

theorem ticks_of_isSome {r : Run σ} (last : (s.tick r).2.isSome) (bound : Nat) :
    s.ticks (bound + 1) r = s.tick r := by
  rcases ticked : s.tick r with ⟨r', _ | verdict⟩
  · simp [ticked] at last
  · simp only [ticks, ticked]

/-- As long as there is room, ticks follow the execution instruction by instruction. -/
theorem ticks_of_run {k : Nat} {r : Run σ} {m : Machine} {sink : σ}
    (executed : r.machine.run k r.sink = ⟨none, m, sink⟩) (room : s.HasRoom r.machine k) :
    ∃ shown, ∀ bound,
      s.ticks (k + bound) r = s.ticks bound ⟨m, sink, shown⟩ ∧
      s.attempts (k + bound) r =
        (List.range k).map (fun j => (r.machine.run j r.sink).machine) ++
          s.attempts bound ⟨m, sink, shown⟩ := by
  induction k generalizing r with
  | zero =>
    obtain ⟨machine, out, shown⟩ := r
    obtain ⟨rfl, rfl⟩ : machine = m ∧ out = sink := by simpa [Machine.run] using executed
    exact ⟨shown, fun bound => ⟨by rw [Nat.zero_add], by simp⟩⟩
  | succ k ih =>
    obtain ⟨m₁, sink₁, stepped, rest⟩ := step_of_run_succ executed
    have attempted := attempt_of_hasRoom (r := r) (room.mono (Nat.le_add_left 1 k))
    rw [stepped] at attempted
    have ticked : s.tick r = (⟨m₁, sink₁, r.shown ++ s.showTrace r.machine⟩, none) := by
      simp only [tick, attempted]
    -- the first tick is the first step; the rest of the ticks follow the rest of the run
    have one : r.machine.run 1 r.sink = ⟨none, m₁, sink₁⟩ := run_succ_of_running stepped 0
    obtain ⟨shown, follow⟩ := ih (r := ⟨m₁, sink₁, r.shown ++ s.showTrace r.machine⟩) rest
      (HasRoom.of_run (Nat.add_comm k 1 ▸ room) one)
    refine ⟨shown, fun bound => ?_⟩
    obtain ⟨ticks_eq, attempts_eq⟩ := follow bound
    rw [show k + 1 + bound = k + bound + 1 by omega]
    constructor
    · simp only [ticks, ticked, ticks_eq]
    · simp only [attempts, attempted, ticked, attempts_eq, List.range_succ_eq_map, List.map_cons,
        List.map_map, List.cons_append, Function.comp_def, Nat.succ_eq_add_one,
        run_succ_of_running stepped]
      rfl

theorem tick_of_step_halted {r : Run σ} (room : s.HasRoom r.machine 1) {m : Machine} {sink : σ}
    (h : r.machine.step r.sink = ⟨.ok .halted, m, sink⟩) :
    s.tick r = (⟨m, (halt sink).2, r.shown ++ s.showTrace r.machine⟩, some (halt sink).1) := by
  simp only [tick, attempt_of_hasRoom room, h]

theorem tick_of_step_error {r : Run σ} (room : s.HasRoom r.machine 1) {m : Machine} {sink : σ}
    {fault : Fault} (h : r.machine.step r.sink = ⟨.error fault, m, sink⟩) :
    s.tick r = (s.dump .always ⟨m, sink, r.shown ++ s.showTrace r.machine⟩,
      some (.error (.fault m.pc fault))) := by
  simp only [tick, attempt_of_hasRoom room, h]

/-- A session ends with the first tick that gives a verdict. -/
theorem run_eq_tick {k patience : Nat} {start : Run σ} {m : Machine} {sink : σ}
    (executed : start.machine.run k start.sink = ⟨none, m, sink⟩)
    (room : s.HasRoom start.machine k) (enough : k < s.bound patience start.machine)
    (last : ∀ shown, (s.tick ⟨m, sink, shown⟩).2.isSome) :
    ∃ shown, s.run patience start = s.tick ⟨m, sink, shown⟩ := by
  obtain ⟨shown, follow⟩ := ticks_of_run executed room
  obtain ⟨rest, counted⟩ : ∃ rest, s.bound patience start.machine = k + (rest + 1) :=
    ⟨s.bound patience start.machine - k - 1, by omega⟩
  exact ⟨shown, by rw [run, counted, (follow _).1, ticks_of_isSome (last shown)]⟩

/-- A machine that halts while there is room is run to its halt, and the sink is flushed. -/
theorem run_of_halts {start : Run σ} {k patience : Nat} {m' : Machine} {sink' : σ}
    (halts : start.machine.HaltsAt start.sink k m' sink') (room : s.HasRoom start.machine k)
    (enough : k ≤ s.bound patience start.machine) :
    (s.run patience start).2 = some (halt sink').1 ∧
      (s.run patience start).1.machine = m' ∧ (s.run patience start).1.sink = (halt sink').2 := by
  obtain ⟨j, before, mid, rfl, executed, stepped⟩ := halts
  have last (shown : Console) :=
    tick_of_step_halted (r := ⟨before, mid, shown⟩) (room.of_run executed) stepped
  obtain ⟨shown, ended⟩ := run_eq_tick executed (room.mono (Nat.le_add_right j 1)) enough
    (fun shown => by rw [last shown]; rfl)
  rw [ended, last shown]
  exact ⟨rfl, rfl, rfl⟩

/-- A machine that faults where there is still room is run to its fault. -/
theorem run_of_faults {start : Run σ} {k patience : Nat} {fault : Fault} {m' : Machine} {sink' : σ}
    (faults : start.machine.FaultsAfter start.sink k fault m' sink')
    (room : s.HasRoom start.machine (k + 1)) (enough : k < s.bound patience start.machine) :
    (s.run patience start).2 = some (.error (.fault m'.pc fault)) ∧
      (s.run patience start).1.machine = m' ∧ (s.run patience start).1.sink = sink' := by
  obtain ⟨before, mid, executed, stepped⟩ := faults
  have last (shown : Console) :=
    tick_of_step_error (r := ⟨before, mid, shown⟩) (room.of_run executed) stepped
  obtain ⟨shown, ended⟩ := run_eq_tick executed (room.mono (Nat.le_add_right k 1)) enough
    (fun shown => by rw [last shown]; rfl)
  rw [ended, last shown]
  exact ⟨rfl, rfl, rfl⟩

/-- A machine still running when the limit is reached stops there. -/
theorem run_of_going (limited : s.maxSteps = some limit) {start : Run σ} {k : Nat}
    (reached : start.machine.steps + k = limit) (patience : Nat)
    (going : (start.machine.run k start.sink).result = none) :
    (s.run patience start).2 = some (.error (.stepLimit limit)) ∧
      start.machine.run k start.sink =
        ⟨none, (s.run patience start).1.machine, (s.run patience start).1.sink⟩ ∧
      (s.run patience start).1.machine.steps = limit ∧
      s.attempts (s.bound patience start.machine) start =
        (List.range k).map fun j => (start.machine.run j start.sink).machine := by
  obtain ⟨m, sink, executed⟩ : ∃ m sink, start.machine.run k start.sink = ⟨none, m, sink⟩ :=
    ⟨_, _, run_eq_of_going going⟩
  have counted : m.steps = limit := (steps_of_run executed).trans reached
  have at_limit (shown : Console) : limit ≤ (⟨m, sink, shown⟩ : Run σ).machine.steps :=
    Nat.le_of_eq counted.symm
  have room : s.HasRoom start.machine k := hasRoom_of_le limited (Nat.le_of_eq reached)
  have enough : s.bound patience start.machine = k + 1 := by
    simp only [bound, limited]
    omega
  obtain ⟨shown, follow⟩ := ticks_of_run executed room
  obtain ⟨ticks_eq, attempts_eq⟩ := follow 1
  have ended : s.run patience start =
      (s.dump .sometimes ⟨m, sink, shown⟩, some (.error (.stepLimit m.steps))) := by
    rw [run, enough, ticks_eq, ticks_of_isSome] <;> rw [tick_of_le limited (at_limit shown)]
    rfl
  rw [ended, executed]
  refine ⟨by rw [counted], rfl, counted, ?_⟩
  rw [enough, attempts_eq, attempts, attempt_of_le limited (at_limit shown), List.append_nil]

/-- A machine still running after as many instructions as the limit allows is cut short. -/
theorem cutShort_of_run (limited : s.maxSteps = some limit) {start : Run σ}
    (fresh : start.machine.steps = 0) (patience : Nat)
    (going : (start.machine.run limit start.sink).result = none) :
    s.CutShort limit patience start := by
  obtain ⟨verdict, executed, steps, attempted⟩ :=
    run_of_going limited (by omega : start.machine.steps + limit = limit) patience going
  exact ⟨verdict, executed, steps, attempted⟩

/-- A machine that halts within the limit is run to its halt, and the sink is flushed. -/
theorem run_of_haltsAt (limited : s.maxSteps = some limit) {start : Run σ}
    (fresh : start.machine.steps = 0) (patience : Nat) {k : Nat} {m' : Machine} {sink' : σ}
    (halts : start.machine.HaltsAt start.sink k m' sink') (room : k ≤ limit) :
    (s.run patience start).2 = some (halt sink').1 ∧
      (s.run patience start).1.machine = m' ∧ (s.run patience start).1.sink = (halt sink').2 := by
  have room : s.HasRoom start.machine k := hasRoom_of_le limited (by omega)
  exact run_of_halts halts room
    (Nat.le_of_lt (lt_bound_of_hasRoom room fun unlimited => by simp [limited] at unlimited))

/-- A machine that faults below the limit is run to its fault. -/
theorem run_of_faultsAfter (limited : s.maxSteps = some limit) {start : Run σ}
    (fresh : start.machine.steps = 0) (patience : Nat) {k : Nat} {fault : Fault} {m' : Machine}
    {sink' : σ} (faults : start.machine.FaultsAfter start.sink k fault m' sink')
    (room : k < limit) :
    (s.run patience start).2 = some (.error (.fault m'.pc fault)) ∧
      (s.run patience start).1.machine = m' ∧ (s.run patience start).1.sink = sink' := by
  have room : s.HasRoom start.machine (k + 1) := hasRoom_of_le limited (by omega)
  exact run_of_faults faults room (lt_bound_of_hasRoom (room.mono (Nat.le_add_right k 1))
    fun unlimited => by simp [limited] at unlimited)

/-! ## The count of instructions -/

theorem steps_tick_le (limited : s.maxSteps = some limit) {r : Run σ}
    (h : r.machine.steps ≤ limit) : (s.tick r).1.machine.steps ≤ limit := by
  by_cases reached : limit ≤ r.machine.steps
  · rw [tick_of_le limited reached]
    exact h
  · have counted := steps_step_le r.machine r.sink
    have attempted := attempt_of_hasRoom (s := s) (r := r) (hasRoom_of_le limited (by omega))
    rcases stepped : r.machine.step r.sink with ⟨_ | _ | _, m, sink⟩ <;>
      (simp only [stepped] at counted attempted
       simp only [tick, attempted, dump]
       omega)

theorem steps_ticks_le (limited : s.maxSteps = some limit) (bound : Nat) {r : Run σ}
    (h : r.machine.steps ≤ limit) : (s.ticks bound r).1.machine.steps ≤ limit := by
  induction bound generalizing r with
  | zero => exact h
  | succ bound ih =>
    have kept := steps_tick_le limited h
    rcases ticked : s.tick r with ⟨r', _ | verdict⟩
    · simp only [ticks, ticked]
      rw [ticked] at kept
      exact ih kept
    · simp only [ticks, ticked]
      rwa [ticked] at kept

/-- **A limit is exact and otherwise invisible.**  Take a program that fits, loaded into a fresh
machine.  If the unlimited execution halts with its `k`-th instruction, a session ends as it does
when `k` is within the limit; if it faults after `k` instructions, a session ends as it does when
`k` is below the limit; in every other case the session is cut short.  At no time has a machine
carried out more instructions than the limit allows. -/
theorem run_under_limit (limited : s.maxSteps = some limit) {program : List UInt8}
    (fits : program.length ≤ Memory.size) (sink : σ) (shown : Console) (patience : Nat) :
    ∃ m, ofProgram program = .ok m ∧
      (∀ k m' sink', m.HaltsAt sink k m' sink' →
        (k ≤ limit →
          (s.run patience ⟨m, sink, shown⟩).2 = some (halt sink').1 ∧
          (s.run patience ⟨m, sink, shown⟩).1.machine = m' ∧
          (s.run patience ⟨m, sink, shown⟩).1.sink = (halt sink').2) ∧
        (limit < k → s.CutShort limit patience ⟨m, sink, shown⟩)) ∧
      (∀ k fault m' sink', m.FaultsAfter sink k fault m' sink' →
        (k < limit →
          (s.run patience ⟨m, sink, shown⟩).2 = some (.error (.fault m'.pc fault)) ∧
          (s.run patience ⟨m, sink, shown⟩).1.machine = m' ∧
          (s.run patience ⟨m, sink, shown⟩).1.sink = sink') ∧
        (limit ≤ k → s.CutShort limit patience ⟨m, sink, shown⟩)) ∧
      (m.Endless sink → s.CutShort limit patience ⟨m, sink, shown⟩) ∧
      ((∃ k m' sink', m.HaltsAt sink k m' sink') ∨
        (∃ k fault m' sink', m.FaultsAfter sink k fault m' sink') ∨ m.Endless sink) ∧
      ∀ bound, (s.ticks bound ⟨m, sink, shown⟩).1.machine.steps ≤ limit := by
  obtain ⟨m, loaded, -, fresh⟩ := ofProgram_of_le fits
  have short : (m.run limit sink).result = none → s.CutShort limit patience ⟨m, sink, shown⟩ :=
    fun going => cutShort_of_run limited fresh patience going
  refine ⟨m, loaded, ?_, ?_, ?_, halts_or_faults_or_endless m sink, ?_⟩
  · intro k m' sink' halts
    constructor
    · exact run_of_haltsAt limited fresh patience halts
    · intro beyond
      -- the halting instruction comes after the limit, so the last one allowed does not halt
      obtain ⟨j, before, mid, rfl, executed, -⟩ := halts
      exact short (result_run_of_le executed (Nat.le_of_lt_succ beyond))
  · intro k fault m' sink' faults
    constructor
    · exact run_of_faultsAfter limited fresh patience faults
    · intro reached
      obtain ⟨before, mid, executed, -⟩ := faults
      exact short (result_run_of_le executed reached)
  · intro endless
    exact short (endless limit)
  · intro bound
    have below : m.steps ≤ limit := by
      rw [fresh]
      exact Nat.zero_le _
    exact steps_ticks_le limited bound below

set_option maxRecDepth 8000 in
/-- A register is loaded and printed, and the third instruction halts: a limit of three lets the
program end, and a limit of two does not. -/
theorem print_under_limit :
    let program : List UInt8 := [0x82, 0, 72, 0x47, 0, 0x01]
    ∃ m, ofProgram program = .ok m ∧
      (Session.run { maxSteps := some 3 } 0 ⟨m, ({} : Sink), {}⟩).2 = some (.ok ()) ∧
      (Session.run { maxSteps := some 3 } 0 ⟨m, ({} : Sink), {}⟩).1.sink.bytes = [55, 50, 10] ∧
      CutShort { maxSteps := some 2 } 2 0 ⟨m, ({} : Sink), {}⟩ := by
  intro program
  have fits : program.length ≤ Memory.size := by
    simp only [program]
    decide
  obtain ⟨m, loaded, at_three, -⟩ :=
    run_under_limit (s := { maxSteps := some 3 }) rfl fits ({} : Sink) {} 0
  obtain ⟨m₂, loaded₂, at_two, -⟩ :=
    run_under_limit (s := { maxSteps := some 2 }) rfl fits ({} : Sink) {} 0
  obtain rfl : m = m₂ := Except.ok.inj (loaded.symm.trans loaded₂)
  have halts : ∃ m', m.HaltsAt ({} : Sink) 3 m' { bytes := [55, 50, 10] } := by
    obtain rfl := Except.ok.inj loaded
    simp only [program]
    exact ⟨_, 2, _, _, rfl, rfl, rfl⟩
  obtain ⟨m', halts⟩ := halts
  obtain ⟨verdict, -, sink⟩ := (at_three _ _ _ halts).1 (by decide)
  exact ⟨m, loaded, verdict, by rw [sink]; rfl, (at_two _ _ _ halts).2 (by decide)⟩

end Session

end EightBit
