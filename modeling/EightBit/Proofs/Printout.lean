/-
# EightBit.Proofs.Printout -- what a program prints and how it ends

A program prints one decimal line for each print it carries out, and nothing else.  Which values
those are is read off the execution (`Machine.printouts`): the machine before each instruction says
whether that is a print and of what (`Machine.printing`).

A run on a sink without a limit ends in one of three ways (`Machine.Ends`): it carries out a halt,
an instruction faults, or as many instructions are carried out as it may.  `ends_or_endless` says
that there is no fourth but going on for ever; `Session.run_of_ends` and `Session.run_of_endless`
that the verdict of a session is the way the execution ends, and that the sink is left with the
lines.
-/
import EightBit.Proofs.TraceLog
import EightBit.Proofs.Truncation

namespace EightBit

open Manual

set_option autoImplicit false

/-! ## Lines as text -/

namespace Writer

/-- The line of a value, as text. -/
def lineText (v : UInt8) : String :=
  Numeral.decimal v.toNat ++ "\n"

theorem ofUInt8_toUInt8 {c : Char} (small : c.toNat < 256) : Char.ofUInt8 c.toUInt8 = c := by
  apply Char.ext
  apply UInt32.toNat_inj.1
  show c.val.toUInt8.toUInt32.toNat = c.val.toNat
  rw [UInt8.toNat_toUInt32, UInt32.toNat_toUInt8]
  exact Nat.mod_eq_of_lt small

/-- The bytes of a line are the codes of its characters. -/
theorem map_ofUInt8_line (v : UInt8) : (line v).map Char.ofUInt8 = (lineText v).toList := by
  have digits_text : (digits v).map Char.ofUInt8 = (Numeral.decimal v.toNat).toList := by
    rw [digits, List.map_map]
    refine (List.map_congr_left (g := id) fun c member => ?_).trans (List.map_id _)
    rw [Numeral.decimal, String.toList_ofList] at member
    have digit := Numeral.isDigit_of_mem_digits (by decide) (by decide) member
    have below : c.toNat ≤ 57 := by simpa using (Char.isDigit_iff_toNat.1 digit).2
    exact ofUInt8_toUInt8 (Nat.lt_of_le_of_lt below (by decide))
  rw [line, List.map_append, digits_text, lineText, String.toList_append]
  rfl

end Writer

namespace Sink

/-- The sink with the lines of some values. -/
def ofLines (values : List UInt8) : Sink :=
  { bytes := values.flatMap Writer.line }

theorem ofLines_append (values : List UInt8) (value : Option UInt8) :
    (ofLines values).append (printout value) = ofLines (values ++ value.toList) := by
  cases value <;> simp [ofLines, append, printout]

theorem text_ofLines (values : List UInt8) :
    (ofLines values).text = String.join (values.map Writer.lineText) := by
  induction values with
  | nil => rfl
  | cons v rest ih =>
    rw [List.map_cons, String.join_cons, ← ih]
    apply String.toList_injective
    simp [text, ofLines, Writer.map_ofUInt8_line]

end Sink

namespace Machine

/-! ## What is printed -/

/-- The value that the next instruction prints, if it prints one. -/
def printing (m : Machine) : Option UInt8 :=
  match m.fetch with
  | .ok i => if i.op = .data .prn then (m.registers.read i.a).toOption else none
  | .error _ => none

/-- The values that the first `n` instructions print, in order. -/
def printouts (m : Machine) (n : Nat) : List UInt8 :=
  (List.range n).filterMap fun j => (m.run j ({} : Sink)).machine.printing

/-- What the first `n` instructions print. -/
def printout (m : Machine) (n : Nat) : String :=
  String.join ((m.printouts n).map Writer.lineText)

theorem printing_of_advance {m : Machine} {e : Effect} (advanced : advance m = .ok e) :
    m.printing = e.printed := by
  obtain ⟨op, a, b, fetched, allowed, rfl⟩ := advance_eq_ok advanced
  by_cases prints : op = .data .prn
  · subst prints
    have named : registerRefusal a = none := allowed
    simp [printing, fetched, printed, read_of_registerRefusal named, Except.toOption]
  · simp [printing, fetched, printed, prints]

theorem printouts_succ (m : Machine) (n : Nat) :
    m.printouts (n + 1) =
      m.printouts n ++ (m.run n ({} : Sink)).machine.printing.toList := by
  rw [printouts, List.range_succ, List.filterMap_append, printouts]
  cases printing : (m.run n ({} : Sink)).machine.printing <;> simp [printing]

/-- A step that succeeds leaves on the sink what the instruction prints. -/
theorem sink_of_step_ok {m m' : Machine} {sink sink' : Sink} {status : Status}
    (free : sink.limit = none) (running : m.status = .running)
    (h : m.step sink = ⟨.ok status, m', sink'⟩) :
    sink' = sink.append (Sink.printout m.printing) := by
  rcases step_cases_of_limit_none free m with ⟨halted, -⟩ | ⟨-, fault, -, stepped⟩ |
      ⟨-, e, advanced, stepped⟩
  · simp [running] at halted
  · simp [stepped] at h
  · rw [printing_of_advance advanced]
    exact (congrArg Outcome.sink (stepped.symm.trans h)).symm

/-- A step that faults leaves nothing. -/
theorem sink_of_step_error {m m' : Machine} {sink sink' : Sink} {fault : Fault}
    (free : sink.limit = none) (h : m.step sink = ⟨.error fault, m', sink'⟩) : sink' = sink := by
  rcases step_cases_of_limit_none free m with ⟨-, stepped⟩ | ⟨-, fault', -, stepped⟩ |
      ⟨-, e, -, stepped⟩
  · simp [stepped] at h
  · exact (congrArg Outcome.sink (stepped.symm.trans h)).symm
  · simp [stepped] at h

/-- While the machine runs, the sink holds the lines of what has been printed. -/
theorem sink_of_run {m m' : Machine} {sink' : Sink} {n : Nat} (running : m.status = .running)
    (executed : m.run n ({} : Sink) = ⟨none, m', sink'⟩) :
    sink' = Sink.ofLines (m.printouts n) ∧ m'.status = .running := by
  induction n generalizing m' sink' with
  | zero =>
    obtain ⟨rfl, rfl⟩ : m = m' ∧ ({} : Sink) = sink' := by simpa [run] using executed
    exact ⟨rfl, running⟩
  | succ n ih =>
    obtain ⟨m₁, sink₁, before⟩ : ∃ m₁ sink₁, m.run n ({} : Sink) = ⟨none, m₁, sink₁⟩ :=
      ⟨_, _, run_eq_of_going (result_run_of_le executed (Nat.le_succ n))⟩
    obtain ⟨rfl, running₁⟩ := ih before
    rw [run_add before] at executed
    obtain ⟨m₂, sink₂, stepped, last⟩ := step_of_run_succ executed
    obtain ⟨rfl, rfl⟩ : m₂ = m' ∧ sink₂ = sink' := by simpa [run] using last
    refine ⟨?_, Session.next_of_step_running stepped⟩
    rw [sink_of_step_ok rfl running₁ stepped, Sink.ofLines_append, printouts_succ, before]

/-! ## Halts -/

/-- The `k`-th instruction is a halt, and those before it leave the machine running. -/
def HaltsWith (m : Machine) (k : Nat) : Prop :=
  ∃ j before mid i, k = j + 1 ∧ m.run j ({} : Sink) = ⟨none, before, mid⟩ ∧
    before.fetch = .ok i ∧ i.op = .data .hlt

/-- The instruction that halts a running machine is the one for that. -/
theorem step_halted_iff {m : Machine} (running : m.status = .running) {sink : Sink} :
    (∃ m' sink', m.step sink = ⟨.ok .halted, m', sink'⟩) ↔
      ∃ i, m.fetch = .ok i ∧ i.op = .data .hlt := by
  constructor
  · rintro ⟨m', sink', stepped⟩
    have ok : (m.step sink).result = .ok .halted := by rw [stepped]
    obtain ⟨op, a, b, fetched, -, after, -, stepped'⟩ := exists_next_of_step_ok running ok
    have status : (next m op a b).status = .halted := by
      simpa [stepped'] using ok
    rw [status_next] at status
    by_cases halts : op = .data .hlt
    · exact ⟨_, fetched, halts⟩
    · simp [halts, running] at status
  · rintro ⟨i, fetched, halts⟩
    obtain ⟨op, a, b, rfl⟩ := exists_of_fetch_ok fetched
    obtain rfl : op = .data .hlt := halts
    have advanced : advance m = .ok ⟨next m (.data .hlt) a b, none⟩ := by
      rw [advance, fetched]
      rfl
    exact ⟨_, _, step_of_advance_ok running advanced sink⟩

theorem haltsWith_iff {m : Machine} (running : m.status = .running) {k : Nat} :
    m.HaltsWith k ↔ ∃ m' sink', m.HaltsAt ({} : Sink) k m' sink' := by
  constructor
  · rintro ⟨j, before, mid, i, rfl, executed, fetched, halts⟩
    obtain ⟨-, running'⟩ := sink_of_run running executed
    obtain ⟨m', sink', stepped⟩ := (step_halted_iff running').2 ⟨i, fetched, halts⟩
    exact ⟨m', sink', j, before, mid, rfl, executed, stepped⟩
  · rintro ⟨m', sink', j, before, mid, rfl, executed, stepped⟩
    obtain ⟨-, running'⟩ := sink_of_run running executed
    obtain ⟨i, fetched, halts⟩ := (step_halted_iff running').1 ⟨m', sink', stepped⟩
    exact ⟨j, before, mid, i, rfl, executed, fetched, halts⟩

/-- A program that runs for ever carries out no halt. -/
theorem not_haltsWith_of_endless {m : Machine} (running : m.status = .running)
    (endless : m.Endless ({} : Sink)) (k : Nat) : ¬ m.HaltsWith k := by
  intro halts
  obtain ⟨m', sink', j, before, mid, rfl, executed, stepped⟩ := (haltsWith_iff running).1 halts
  have going := endless (j + 1)
  rw [run_add executed 1] at going
  simp [run, stepped] at going

/-- A halting run leaves the lines of what has been printed. -/
theorem sink_of_haltsAt {m m' : Machine} {sink' : Sink} {k : Nat} (running : m.status = .running)
    (halts : m.HaltsAt ({} : Sink) k m' sink') : sink' = Sink.ofLines (m.printouts k) := by
  obtain ⟨j, before, mid, rfl, executed, stepped⟩ := halts
  obtain ⟨rfl, running'⟩ := sink_of_run running executed
  rw [sink_of_step_ok rfl running' stepped, Sink.ofLines_append, printouts_succ, executed]

/-- A faulting run leaves the lines of what has been printed before the fault. -/
theorem sink_of_faultsAfter {m m' : Machine} {sink' : Sink} {k : Nat} {fault : Fault}
    (running : m.status = .running) (faults : m.FaultsAfter ({} : Sink) k fault m' sink') :
    sink' = Sink.ofLines (m.printouts k) := by
  obtain ⟨before, mid, executed, stepped⟩ := faults
  obtain ⟨rfl, -⟩ := sink_of_run running executed
  exact sink_of_step_error rfl stepped

/-! ## The ways to end -/

/-- The ways the execution of a machine under a limit, or without one, can end: the number of
instructions carried out, and the verdict. -/
inductive Ends (m : Machine) (limit : Option Nat) : Nat → Verdict → Prop
  | halt {k : Nat} (halts : m.HaltsWith k) (within : ∀ most ∈ limit, k ≤ most) :
    Ends m limit k (.ok ())
  | fault {k : Nat} {fault : Fault} {m' : Machine} {sink' : Sink}
    (faults : m.FaultsAfter ({} : Sink) k fault m' sink') (within : ∀ most ∈ limit, k < most) :
    Ends m limit k (.error (.fault m'.pc fault))
  | limit {most : Nat} (limited : limit = some most)
    (going : (m.run most ({} : Sink)).result = none) :
    Ends m limit most (.error (.stepLimit most))

theorem ends_or_endless {m : Machine} (running : m.status = .running) (limit : Option Nat) :
    (∃ n verdict, m.Ends limit n verdict) ∨ limit = none ∧ m.Endless ({} : Sink) := by
  by_cases going : ∃ most, limit = some most ∧ (m.run most ({} : Sink)).result = none
  · obtain ⟨most, limited, going⟩ := going
    exact .inl ⟨_, _, .limit limited going⟩
  have stops {most k : Nat} (limited : limit = some most) {before : Machine} {mid : Sink}
      (executed : m.run k ({} : Sink) = ⟨none, before, mid⟩) : k < most := by
    by_cases beyond : most ≤ k
    · exact absurd ⟨most, limited, result_run_of_le executed beyond⟩ going
    · omega
  rcases halts_or_faults_or_endless m ({} : Sink) with ⟨k, m', sink', halts⟩ |
      ⟨k, fault, m', sink', faults⟩ | endless
  · refine .inl ⟨k, _, .halt ((haltsWith_iff running).2 ⟨m', sink', halts⟩) ?_⟩
    obtain ⟨j, before, mid, rfl, executed, -⟩ := halts
    exact fun most limited => stops limited executed
  · refine .inl ⟨k, _, .fault faults ?_⟩
    obtain ⟨before, mid, executed, -⟩ := faults
    exact fun most limited => stops limited executed
  · refine .inr ⟨?_, endless⟩
    cases limited : limit with
    | none => rfl
    | some most => exact absurd ⟨most, limited, endless most⟩ going

end Machine

namespace Session

open Machine

variable {s : Session} {n patience : Nat} {verdict : Verdict}

/-- A run that ended would have ended with more patience. -/
theorem ticks_of_le {σ : Type} [Writer σ] {r : Run σ} {bound more : Nat}
    (ended : (s.ticks bound r).2 = some verdict) (le : bound ≤ more) :
    s.ticks more r = s.ticks bound r := by
  induction bound generalizing r more with
  | zero => simp [ticks] at ended
  | succ bound ih =>
    obtain ⟨more, rfl⟩ : ∃ i, more = i + 1 := Nat.exists_eq_add_one_of_ne_zero (by omega)
    rcases ticked : s.tick r with ⟨r', _ | first⟩ <;> simp only [ticks, ticked] at ended ⊢
    exact ih ended (Nat.le_of_succ_le_succ le)

theorem run_of_le {σ : Type} [Writer σ] {r : Run σ} {longer : Nat}
    (ended : (s.run patience r).2 = some verdict) (le : patience ≤ longer) :
    s.run longer r = s.run patience r := by
  refine ticks_of_le ended ?_
  unfold bound
  cases s.maxSteps with
  | none => exact le
  | some limit => exact Nat.le_refl _

theorem run_unique {σ : Type} [Writer σ] {r : Run σ} {patience' : Nat} {verdict' : Verdict}
    (ended : (s.run patience r).2 = some verdict)
    (ended' : (s.run patience' r).2 = some verdict') : s.run patience r = s.run patience' r :=
  (run_of_le ended (Nat.le_add_right patience patience')).symm.trans
    (run_of_le ended' (Nat.le_add_left patience' patience))

/-- A session gives the verdict the execution ends with, and leaves the lines on the sink.  Without
a limit that takes some patience. -/
theorem run_of_ends {start : Run} (running : start.machine.status = .running)
    (fresh : start.machine.steps = 0) (clean : start.sink = {})
    (ends : start.machine.Ends s.maxSteps n verdict)
    (patient : s.maxSteps = none → n < patience) :
    (s.run patience start).2 = some verdict ∧
      (s.run patience start).1.sink = Sink.ofLines (start.machine.printouts n) := by
  have hasRoom {k : Nat} (within : ∀ most ∈ s.maxSteps, k ≤ most) : s.HasRoom start.machine k := by
    intro most limited
    rw [fresh, Nat.zero_add]
    exact within most limited
  cases ends with
  | halt halts within =>
    obtain ⟨m', sink', halts⟩ := (haltsWith_iff running).1 halts
    obtain rfl := sink_of_haltsAt running halts
    rw [← clean] at halts
    have room := hasRoom within
    obtain ⟨ended, -, sink⟩ :=
      run_of_halts halts room (Nat.le_of_lt (lt_bound_of_hasRoom room patient))
    exact ⟨ended, sink⟩
  | fault faults within =>
    obtain rfl := sink_of_faultsAfter running faults
    rw [← clean] at faults
    have room : s.HasRoom start.machine (n + 1) := hasRoom within
    obtain ⟨ended, -, sink⟩ := run_of_faults faults room
      (lt_bound_of_hasRoom (room.mono (Nat.le_add_right n 1)) patient)
    exact ⟨ended, sink⟩
  | limit limited going =>
    have reached : start.machine.steps + n = n := by rw [fresh, Nat.zero_add]
    rw [← clean] at going
    obtain ⟨ended, executed, -, -⟩ := run_of_going limited reached patience going
    rw [clean] at executed
    exact ⟨ended, (sink_of_run running executed).1⟩

/-- A session follows an endless execution for as long as patience lasts. -/
theorem run_of_endless {start : Run} (running : start.machine.status = .running)
    (clean : start.sink = {}) (unlimited : s.maxSteps = none)
    (endless : start.machine.Endless start.sink) (patience : Nat) :
    (s.run patience start).2 = none ∧
      (s.run patience start).1.sink = Sink.ofLines (start.machine.printouts patience) := by
  have followed : s.bound patience start.machine = patience := by
    simp only [bound, unlimited]
  have ends := endsAs_ticks unlimited patience start
  obtain ⟨sink, verdict⟩ := ends.going (endless patience)
  have executed := run_eq_of_going (endless patience)
  rw [clean] at executed sink
  rw [run, followed]
  exact ⟨verdict, sink.trans (sink_of_run running executed).1⟩

/-- An execution ends in one way. -/
theorem verdict_unique {m : Machine} (running : m.status = .running) (fresh : m.steps = 0)
    {limit : Option Nat} {other : Nat} {verdict' : Verdict} (ends : m.Ends limit n verdict)
    (ends' : m.Ends limit other verdict') : verdict = verdict' := by
  let s : Session := { maxSteps := limit }
  let start : Run := ⟨m, {}, {}⟩
  have ended : (s.run (n + other + 1) start).2 = some verdict :=
    (run_of_ends running fresh rfl ends fun _ => by omega).1
  have ended' : (s.run (n + other + 1) start).2 = some verdict' :=
    (run_of_ends running fresh rfl ends' fun _ => by omega).1
  exact Option.some.inj (ended.symm.trans ended')

end Session

end EightBit
