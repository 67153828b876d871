/-
# EightBit.Proofs.Bounds -- the program counter stays in memory or right behind it

The host may load programs, write cells and set registers between steps, so an instruction can be
met anywhere and cut off by the end of memory.  Still the program counter never passes 256, because
an instruction moves it only after all of its bytes have been read (`end_le_of_fetch`).

`inBounds_step` says that a step keeps this, and `inBounds_of_driven` that any interleaving of steps
and changes by the host does.  `driven_bounds` adds what follows for faults: the only address a
fault names is 256, and the accesses of the stack operations never fail.
-/
import EightBit.Proofs.Window

namespace EightBit

open Procedure Manual

set_option autoImplicit false

/-! ## Faults at the end of memory -/

/-- The fault names no address but the first behind memory, and no length of a program. -/
def Fault.AtMemoryEnd : Fault → Prop
  | .addressOutOfRange address => address = 256
  | .programTooLarge _ => False
  | _ => True

namespace Manual

theorem atMemoryEnd_of_registerRefusal {byte : UInt8} {fault : Fault}
    (h : registerRefusal byte = some fault) : fault.AtMemoryEnd := by
  obtain ⟨-, rfl⟩ := require_eq_some.1 h
  trivial

theorem atMemoryEnd_of_pushRefusal {m : Machine} {fault : Fault} (h : pushRefusal m = some fault) :
    fault.AtMemoryEnd := by
  obtain ⟨-, rfl⟩ := require_eq_some.1 h
  trivial

theorem atMemoryEnd_of_popRefusal {m : Machine} {fault : Fault} (h : popRefusal m = some fault) :
    fault.AtMemoryEnd := by
  obtain ⟨-, rfl⟩ := require_eq_some.1 h
  trivial

/-- An operation whose bytes lie in memory is not refused for another address than 256. -/
theorem atMemoryEnd_of_refusal {m : Machine} {op : Operation} {a b : UInt8} {fault : Fault}
    (inside : m.pc + Layout.width op.byte ≤ 256) (h : refusal m op a b = some fault) :
    fault.AtMemoryEnd := by
  cases op with
  | alu op =>
    rw [refusal_alu] at h
    rcases Option.or_eq_some_iff.1 h with unnamed | ⟨-, h⟩
    · exact atMemoryEnd_of_registerRefusal unnamed
    · by_cases unary : op = .not
      · simp [unary] at h
      · rw [if_neg unary] at h
        rcases Option.or_eq_some_iff.1 h with unnamed | ⟨-, h⟩
        · exact atMemoryEnd_of_registerRefusal unnamed
        · obtain ⟨-, rfl⟩ := require_eq_some.1 h
          trivial
  | transfer op =>
    cases op with
    | call =>
      rcases Option.or_eq_some_iff.1 h with refused | ⟨-, h⟩
      · -- the byte behind a call that ends at 255 has no address that fits in a byte
        obtain ⟨far, rfl⟩ := require_eq_some.1 refused
        have last : m.pc + 2 ≤ 256 := inside
        exact Nat.le_antisymm last (Nat.not_lt.1 far)
      · rcases Option.or_eq_some_iff.1 h with unnamed | ⟨-, h⟩
        · exact atMemoryEnd_of_registerRefusal unnamed
        · exact atMemoryEnd_of_pushRefusal h
    | ret => exact atMemoryEnd_of_popRefusal h
    | jmp => exact atMemoryEnd_of_registerRefusal h
    | jeq =>
      by_cases equal : m.flag = .equal
      · have unnamed : registerRefusal a = some fault := by simpa [refusal, equal] using h
        exact atMemoryEnd_of_registerRefusal unnamed
      · simp [refusal, equal] at h
    | jne =>
      by_cases equal : m.flag = .equal
      · simp [refusal, equal] at h
      · have unnamed : registerRefusal a = some fault := by simpa [refusal, equal] using h
        exact atMemoryEnd_of_registerRefusal unnamed
  | data op =>
    cases op with
    | hlt => cases h
    | ldi | prn => exact atMemoryEnd_of_registerRefusal h
    | push =>
      rcases Option.or_eq_some_iff.1 h with unnamed | ⟨-, h⟩
      · exact atMemoryEnd_of_registerRefusal unnamed
      · exact atMemoryEnd_of_pushRefusal h
    | pop =>
      rcases Option.or_eq_some_iff.1 h with unnamed | ⟨-, h⟩
      · exact atMemoryEnd_of_registerRefusal unnamed
      · exact atMemoryEnd_of_popRefusal h

end Manual

namespace Machine

variable {σ : Type}

/-! ## Fetching near the end of memory -/

theorem atMemoryEnd_of_read {memory : Memory} {address : Nat} {fault : Fault}
    (near : address ≤ 256) (h : memory.read address = .error fault) :
    fault.AtMemoryEnd := by
  unfold Memory.read at h
  split at h
  · cases h
  · next outside =>
    cases h
    exact Nat.le_antisymm near (Nat.not_lt.1 outside)

theorem lt_of_operand {m : Machine} {byte : UInt8} {slot : Nat} {v : UInt8}
    (h : m.operand byte slot = .ok v) (declared : slot < Layout.operandCount byte) :
    m.pc + 1 + slot < 256 := by
  rw [operand, if_pos declared] at h
  exact Memory.lt_of_read h

/-- All bytes of a fetched instruction lie in memory. -/
theorem end_le_of_fetch {m : Machine} {op : Operation} {a b : UInt8}
    (h : m.fetch = .ok ⟨op.byte, op, a, b⟩) : m.pc + Layout.width op.byte ≤ 256 := by
  obtain ⟨read, -, first, second⟩ := fetch_eq_ok h
  simp only at first second
  have start : m.pc < 256 := Memory.lt_of_read read
  have short := Operation.operandCount_byte_le op
  rw [Layout.width]
  rcases count : Layout.operandCount op.byte with _ | _ | _ | more
  · omega
  · have := lt_of_operand first (by omega)
    omega
  · have := lt_of_operand second (by omega)
    omega
  · omega

/-- A fetch reads one byte after the other, so the first it misses is the one at 256. -/
theorem atMemoryEnd_of_fetch {m : Machine} {fault : Fault} (near : m.pc ≤ 256)
    (h : m.fetch = .error fault) : fault.AtMemoryEnd := by
  rcases bind_eq_error.1 h with unread | ⟨byte, read, h⟩
  · exact atMemoryEnd_of_read near unread
  have start := Memory.lt_of_read read
  rcases bind_eq_error.1 h with undecoded | ⟨op, -, h⟩
  · unfold Operation.decode at undecoded
    split at undecoded
    · cases undecoded
    · cases undecoded
      trivial
  rcases bind_eq_error.1 h with first | ⟨a, first, h⟩
  · unfold operand at first
    split at first
    · exact atMemoryEnd_of_read start first
    · cases first
  rcases bind_eq_error.1 h with second | ⟨b, -, h⟩
  · unfold operand at second
    split at second
    · next declared =>
      -- the second operand is looked for only when the first has been read
      have before := lt_of_operand first (by omega)
      exact atMemoryEnd_of_read before second
    · cases second
  · cases h

theorem atMemoryEnd_of_advance {m : Machine} {fault : Fault} (near : m.pc ≤ 256)
    (h : advance m = .error fault) : fault.AtMemoryEnd := by
  rcases advance_eq_error h with unfetched | ⟨op, a, b, fetched, refused⟩
  · exact atMemoryEnd_of_fetch near unfetched
  · exact atMemoryEnd_of_refusal (end_le_of_fetch fetched) refused

theorem atMemoryEnd_of_step [Writer σ] {m : Machine} {sink : σ} {fault : Fault}
    (near : m.pc ≤ 256) (h : (m.step sink).result = .error fault) : fault.AtMemoryEnd := by
  rcases step_cases m sink with ⟨-, stepped⟩ | ⟨-, f, refused, stepped⟩ |
      ⟨-, e, after, -, -, stepped⟩ | ⟨-, e, cause, after, -, -, stepped⟩
  · simp [stepped] at h
  · obtain rfl : f = fault := by simpa [stepped] using h
    exact atMemoryEnd_of_advance near refused
  · simp [stepped] at h
  · obtain rfl : Fault.output cause = fault := by simpa [stepped] using h
    trivial

/-! ## Instructions with three operands -/

theorem decode?_of_operandCount {byte : UInt8} (h : Layout.operandCount byte = 3) :
    Operation.decode? byte = none := by
  refine Option.eq_none_iff_forall_ne_some.2 fun op decoded => ?_
  have short := Operation.operandCount_byte_le op
  rw [Operation.byte_of_decode? decoded, h] at short
  contradiction

/-- A byte that declares three operands is no instruction. -/
theorem step_of_operandCount [Writer σ] {m : Machine} {byte : UInt8} (running : m.status = .running)
    (read : m.memory.read m.pc = .ok byte) (h : Layout.operandCount byte = 3) (sink : σ) :
    m.step sink = ⟨.error (.unsupportedOperation byte m.pc), m, sink⟩ := by
  have unfetched : m.fetch = .error (.unsupportedOperation byte m.pc) := by
    simp [fetch, read, Operation.decode, decode?_of_operandCount h, bind, Except.bind]
  refine step_of_advance_error running ?_ sink
  simp [advance, unfetched, bind, Except.bind]

theorem width_le_of_fetch {m : Machine} {i : Instruction} (h : m.fetch = .ok i) :
    Layout.width i.byte ≤ 3 := by
  obtain ⟨-, encoded, -⟩ := fetch_eq_ok h
  have short := Operation.operandCount_byte_le i.op
  rw [encoded, Layout.width]
  omega

/-! ## One step -/

/-- The instruction at the program counter has its last byte at 255 and does not place the program
counter elsewhere. -/
def FallsOff (m : Machine) : Prop :=
  ∃ i, m.fetch = .ok i ∧ m.pc + Layout.operandCount i.byte = 255 ∧ target m i.op i.a = none

/-- The program counter is in memory, or right behind it because the instruction carried out last,
on the machine `last`, has led there. -/
structure InBounds (last : Option Machine) (m : Machine) : Prop where
  pc_le : m.pc ≤ 256
  fell_off : m.pc = 256 → ∃ before, last = some before ∧ before.FallsOff

/-- The machine the last instruction was carried out on, after a step of `m`. -/
def lastAfter [Writer σ] (last : Option Machine) (m : Machine) (sink : σ) : Option Machine :=
  match m.status, (m.step sink).result with
  | .running, .ok _ => some m
  | _, _ => last

theorem InBounds.of_pc {last : Option Machine} {m m' : Machine} (h : InBounds last m)
    (same : m'.pc = m.pc) : InBounds last m' where
  pc_le := same ▸ h.pc_le
  fell_off at_end := h.fell_off (same ▸ at_end)

theorem InBounds.of_pc_eq_zero (last : Option Machine) {m : Machine} (h : m.pc = 0) :
    InBounds last m where
  pc_le := h ▸ Nat.zero_le _
  fell_off at_end := by simp [h] at at_end

/-- A fetched instruction leads into memory, or right behind it from the last byte. -/
theorem inBounds_next {m : Machine} {op : Operation} {a b : UInt8}
    (fetched : m.fetch = .ok ⟨op.byte, op, a, b⟩) : InBounds (some m) (next m op a b) := by
  have inside := end_le_of_fetch fetched
  have leads := next_pc m op a b
  cases placed : target m op a with
  | some address =>
    have small := address.toNat_lt
    rw [placed, Option.elim_some] at leads
    exact ⟨by omega, fun at_end => by omega⟩
  | none =>
    rw [placed, Option.elim_none] at leads
    rw [Layout.width] at inside
    refine ⟨by omega, fun at_end => ⟨m, rfl, _, fetched, ?_, placed⟩⟩
    simp only
    omega

theorem inBounds_step [Writer σ] {last : Option Machine} {m : Machine} (h : InBounds last m)
    (sink : σ) : InBounds (lastAfter last m sink) (m.step sink).machine := by
  rcases step_cases m sink with ⟨halted, stepped⟩ | ⟨running, f, -, stepped⟩ |
      ⟨running, e, after, advanced, -, stepped⟩ | ⟨running, e, cause, after, -, -, stepped⟩
  · simpa [lastAfter, halted, stepped] using h
  · simpa [lastAfter, running, stepped] using h
  · obtain ⟨op, a, b, fetched, -, rfl⟩ := advance_eq_ok advanced
    simpa [lastAfter, running, stepped] using inBounds_next fetched
  · simpa [lastAfter, running, stepped] using h

/-! ## Steps and changes by the host -/

/-- A change the host may ask for, with any arguments. -/
inductive HostCall where
  | load (program : List UInt8)
  | writeCell (address : Nat) (value : UInt8)
  | writeRegister (byte value : UInt8)
  deriving DecidableEq, Repr

def HostCall.perform (m : Machine) : HostCall → Except Fault Machine
  | load program => m.load program
  | writeCell address value => m.writeCell address value
  | writeRegister byte value => m.writeRegister byte value

/-- The machine after a change by the host; one that is refused changes nothing. -/
def changed (m : Machine) (call : HostCall) : Machine :=
  match call.perform m with
  | .ok m' => m'
  | .error _ => m

/-- The machines there can be after steps, each on a sink of its own, and changes by the host, with
the machine the last instruction was carried out on.  Each of them may succeed or fail. -/
inductive Driven : Option Machine → Machine → Prop
  | initial : Driven none Machine.initial
  | program {program : List UInt8} {m : Machine} (loaded : ofProgram program = .ok m) :
      Driven none m
  | step {τ : Type} [Writer τ] {last : Option Machine} {m : Machine} (sink : τ)
      (before : Driven last m) : Driven (lastAfter last m sink) (m.step sink).machine
  | change {last : Option Machine} {m : Machine} (call : HostCall) (before : Driven last m) :
      Driven last (m.changed call)

/-- The host has a way to memory and registers, and to nothing else. -/
theorem exists_of_perform {m m' : Machine} {call : HostCall} (h : call.perform m = .ok m') :
    ∃ memory registers, m' = { m with memory, registers } := by
  cases call with
  | load program =>
    obtain ⟨memory, -, rfl⟩ := map_eq_ok.1 h
    exact ⟨memory, m.registers, rfl⟩
  | writeCell address value =>
    obtain ⟨memory, -, rfl⟩ := map_eq_ok.1 h
    exact ⟨memory, m.registers, rfl⟩
  | writeRegister byte value =>
    obtain ⟨registers, -, rfl⟩ := map_eq_ok.1 h
    exact ⟨m.memory, registers, rfl⟩

theorem exists_changed_eq (m : Machine) (call : HostCall) :
    ∃ memory registers, m.changed call = { m with memory, registers } := by
  unfold changed
  cases performed : call.perform m with
  | error fault => exact ⟨m.memory, m.registers, rfl⟩
  | ok m' => exact exists_of_perform performed

theorem inBounds_of_driven {last : Option Machine} {m : Machine} (driven : Driven last m) :
    InBounds last m := by
  induction driven with
  | initial => exact .of_pc_eq_zero none rfl
  | @program program m loaded =>
    have performed : (HostCall.load program).perform Machine.initial = .ok m := loaded
    obtain ⟨memory, registers, rfl⟩ := exists_of_perform performed
    exact .of_pc_eq_zero none rfl
  | step sink _ ih => exact inBounds_step ih sink
  | @change last m call _ ih =>
    obtain ⟨memory, registers, after⟩ := exists_changed_eq m call
    exact ih.of_pc (by rw [after])

/-! ## The accesses of the stack operations -/

/-- A push fails on the empty address range only, and a pop on the full one. -/
theorem push_eq_error {m m' : Machine} {value : UInt8} {fault : Fault}
    (h : push value m = .error fault m') : fault = .stackOverflow ∧ m.stackPointer = 0 := by
  by_cases empty : m.stackPointer = 0
  · rw [push_of_stackPointer_eq empty] at h
    cases h
    exact ⟨rfl, empty⟩
  · rw [push_of_stackPointer_ne empty] at h
    cases h

theorem pop_eq_error {m m' : Machine} {fault : Fault} (h : pop m = .error fault m') :
    fault = .stackUnderflow ∧ m.stackPointer = 255 := by
  by_cases full : m.stackPointer = 255
  · rw [pop_of_stackPointer_eq full] at h
    cases h
    exact ⟨rfl, full⟩
  · rw [pop_of_stackPointer_ne full] at h
    cases h

/-- **The program counter and the end of memory.**  Whatever the host does between steps, the
program counter is at most 256, and it is 256 only if the instruction carried out last had its last
byte at 255 and went on behind itself.  A step names no other address than 256 in a fault and never
complains of a program's length; it carries out no instruction of more than three bytes, as a byte
that declares three operands is none; and the cells a push and a pop access are always there. -/
theorem driven_bounds {last : Option Machine} {m : Machine} (driven : Driven last m) :
    m.pc ≤ 256 ∧
    (m.pc = 256 → ∃ before i, last = some before ∧ before.fetch = .ok i ∧
      before.pc + Layout.operandCount i.byte = 255 ∧ target before i.op i.a = none) ∧
    (∀ (σ : Type) [Writer σ] (sink : σ),
      (∀ address, (m.step sink).result = .error (.addressOutOfRange address) → address = 256) ∧
      (∀ length, (m.step sink).result ≠ .error (.programTooLarge length)) ∧
      (m.status = .running → ∀ status, (m.step sink).result = .ok status →
        ∃ i, m.fetch = .ok i ∧ Layout.width i.byte ≤ 3) ∧
      (m.status = .running → ∀ byte, m.memory.read m.pc = .ok byte →
        Layout.operandCount byte = 3 →
        m.step sink = ⟨.error (.unsupportedOperation byte m.pc), m, sink⟩)) ∧
    (∀ value, ∃ memory, m.memory.write (m.stackPointer - 1).toNat value = .ok memory) ∧
    (∃ value, m.memory.read m.stackPointer.toNat = .ok value) ∧
    (∀ value fault m', push value m = .error fault m' →
      fault = .stackOverflow ∧ m.stackPointer = 0) ∧
    (∀ fault m', pop m = .error fault m' → fault = .stackUnderflow ∧ m.stackPointer = 255) := by
  have bounds : InBounds last m := inBounds_of_driven driven
  refine ⟨bounds.pc_le, ?_, ?_, ?_, ?_, ?_, ?_⟩
  · intro at_end
    obtain ⟨before, is_last, i, fetched, last_byte, fell⟩ := bounds.fell_off at_end
    exact ⟨before, i, is_last, fetched, last_byte, fell⟩
  · intro σ _ sink
    refine ⟨?_, ?_, ?_, ?_⟩
    · intro address faulted
      exact atMemoryEnd_of_step bounds.pc_le faulted
    · intro length faulted
      exact atMemoryEnd_of_step bounds.pc_le faulted
    · intro running status done
      obtain ⟨op, a, b, fetched, -⟩ := exists_next_of_step_ok running done
      exact ⟨_, fetched, width_le_of_fetch fetched⟩
    · intro running byte read three
      exact step_of_operandCount running read three sink
  · intro value
    exact ⟨_, Memory.write_of_lt (UInt8.toNat_lt _) value⟩
  · exact ⟨_, Memory.read_of_lt (UInt8.toNat_lt _)⟩
  · intro value fault m' failed
    exact push_eq_error failed
  · intro fault m' failed
    exact pop_eq_error failed

/-- The host plants a jump to a complement at the end of memory, and fails to write behind it: the
program counter is 256 after the complement, and the next step faults there. -/
theorem driven_bounds_complement :
    let planted := ((((initial.changed (.writeCell 0 0x54)).changed (.writeCell 254 0x69)).changed
      (.writeRegister 0 254)).changed (.writeCell 300 1))
    let jumped := (planted.step ({} : Sink)).machine
    let m := (jumped.step ({} : Sink)).machine
    Driven (some jumped) m ∧ m.pc = 256 ∧
      (∃ i, jumped.fetch = .ok i ∧ jumped.pc + Layout.operandCount i.byte = 255 ∧
        target jumped i.op i.a = none) ∧
      ∃ address, (m.step ({} : Sink)).result = .error (.addressOutOfRange address) ∧
        address = 256 := by
  intro planted jumped m
  have driven : Driven (some jumped) m := by
    have start : Driven none planted := .change _ (.change _ (.change _ (.change _ .initial)))
    have last :
        lastAfter (lastAfter none planted ({} : Sink)) jumped ({} : Sink) = some jumped := by
      simp only [jumped, planted]
      rfl
    have twice := (start.step ({} : Sink)).step ({} : Sink)
    rwa [last] at twice
  have seen : m.pc = 256 ∧
      (m.step ({} : Sink)).result = .error (.addressOutOfRange 256) := by
    simp only [m, jumped, planted]
    exact ⟨rfl, rfl⟩
  obtain ⟨-, fell_off, faults, -⟩ := driven_bounds driven
  obtain ⟨before, i, is_last, fell⟩ := fell_off seen.1
  obtain rfl := Option.some.inj is_last
  obtain ⟨address_eq, -⟩ := faults Sink {}
  exact ⟨driven, seen.1, ⟨i, fell⟩, _, seen.2, address_eq _ seen.2⟩

end Machine

end EightBit
