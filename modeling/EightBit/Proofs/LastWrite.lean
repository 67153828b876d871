/-
# EightBit.Proofs.LastWrite -- a cell holds the byte it was given last

A memory is changed by two kinds of calls.  A write gives one cell a byte; a load gives the leading
cells the bytes of a program, and leaves the cells behind them as they are.  Either may be refused,
and then it leaves all cells as they are (`Call.make_eq_error`).

So what a successful call does to a cell depends on one thing, the byte it has for the address if it
covers it (`Call.read_of_perform`).  Calls in any order are followed one by one from a new memory
(`Made.ofCalls`); after each of them a cell holds the byte of the last successful call that covers
its address, or else the zero it had at the start (`Made.holdsLast_ofCalls`).
-/
import EightBit.Memory
import EightBit.Procedure

namespace EightBit.Memory

open Procedure

set_option autoImplicit false

/-! ## Calls -/

/-- A change to a memory that is asked for, with any arguments. -/
inductive Call where
  | write (address : Nat) (value : UInt8)
  | load (program : List UInt8)
  deriving DecidableEq, Repr

namespace Call

def perform (memory : Memory) : Call → Except Fault Memory
  | write address value => memory.write address value
  | load program => memory.load program

/-- Make the call on a memory in place. -/
def make (call : Call) : Procedure Memory Unit := do
  let memory ← orFault (call.perform (← get))
  modify fun _ => memory

/-- The byte the call has for an address, if it covers it.  A write covers its own address, and a
load as many leading addresses as its program has bytes. -/
def supplied (address : Nat) : Call → Option UInt8
  | write written value => if written = address then some value else none
  | load program => program[address]?

variable {memory memory' : Memory} {call : Call} {fault : Fault}

/-! ## One call -/

theorem make_eq_ok {result : Unit} :
    call.make memory = .ok result memory' ↔ call.perform memory = .ok memory' := by
  cases h : call.perform memory <;> simp [make, h]

/-- A call that fails leaves the memory as it was. -/
theorem make_eq_error :
    call.make memory = .error fault memory' ↔
      call.perform memory = .error fault ∧ memory' = memory := by
  cases h : call.perform memory <;> simp [make, h, eq_comm]

theorem perform_write_eq_error {address : Nat} {value : UInt8} :
    (write address value).perform memory = .error fault ↔
      256 ≤ address ∧ fault = .addressOutOfRange address := by
  rw [perform, Memory.write]
  split
  · next inside => simp [Nat.not_le.2 inside]
  · next outside => simp [Nat.not_lt.1 outside, eq_comm]

theorem perform_load_eq_error {program : List UInt8} :
    (load program).perform memory = .error fault ↔
      256 < program.length ∧ fault = .programTooLarge program.length := by
  rw [perform, Memory.load]
  split
  · next fits => simp [Nat.not_lt.2 fits]
  · next long => simp [Nat.not_le.1 long, eq_comm]

/-- A successful call replaces the bytes it covers and no others. -/
theorem read_of_perform (done : call.perform memory = .ok memory') (address : Nat) :
    memory'.read address = (memory.read address).map (call.supplied address).getD := by
  cases call with
  | write written value =>
    by_cases here : written = address
    · subst here
      have inside : written < size := lt_of_read (read_write_self done)
      rw [read_write_self done, read_of_lt inside, supplied, if_pos rfl]
      rfl
    · rw [read_write_of_ne done (Ne.symm here), supplied, if_neg here]
      cases memory.read address <;> rfl
  | load program =>
    rw [read_load done, supplied]
    rfl

end Call

/-! ## Many calls -/

/-- What calls have made of a memory, and those of them that have succeeded, the last one first. -/
structure Made where
  memory : Memory := .zero
  succeeded : List Call := []

namespace Made

/-- One more call, whether it succeeds or fails. -/
def next (made : Made) (call : Call) : Made :=
  match call.make made.memory with
  | .ok _ memory => { memory, succeeded := call :: made.succeeded }
  | .error _ memory => { made with memory }

/-- What calls make of a new memory, one after the other. -/
def ofCalls (calls : List Call) : Made :=
  calls.foldl next {}

end Made

/-- The byte that the last of the calls to cover an address has for it.  The last call is the first
of the list. -/
def lastSupplied (address : Nat) (succeeded : List Call) : Option UInt8 :=
  succeeded.findSome? (·.supplied address)

namespace Made

/-- Every cell holds the byte supplied for it last, or else zero. -/
def HoldsLast (made : Made) : Prop :=
  ∀ address, made.memory.read address =
    (zero.read address).map (lastSupplied address made.succeeded).getD

theorem HoldsLast.next {made : Made} (holds : HoldsLast made) (call : Call) :
    HoldsLast (made.next call) := by
  intro address
  unfold Made.next
  split
  · next memory done =>
    -- the call is the first to be asked for a byte, and those before it only if it has none
    rw [Call.read_of_perform (Call.make_eq_ok.1 done), holds address, lastSupplied, lastSupplied,
      List.findSome?_cons]
    cases zero.read address with
    | error fault => rfl
    | ok byte => cases call.supplied address <;> rfl
  · next fault memory failed =>
    rw [(Call.make_eq_error.1 failed).2]
    exact holds address

theorem HoldsLast.foldl {made : Made} (holds : HoldsLast made) (calls : List Call) :
    HoldsLast (calls.foldl Made.next made) := by
  induction calls generalizing made with
  | nil => exact holds
  | cons call calls ih => exact ih (holds.next call)

theorem holdsLast_new : HoldsLast {} := by
  intro address
  cases zero.read address <;> rfl

theorem holdsLast_ofCalls (calls : List Call) : HoldsLast (ofCalls calls) :=
  holdsLast_new.foldl calls

end Made

theorem read_zero (address : Nat) :
    zero.read address = if address < 256 then .ok 0 else .error (.addressOutOfRange address) := by
  unfold read
  split
  · rw [zero, Vector.getElem_replicate]
  · rfl

/-- **The last call to cover a cell decides its byte.**  Whatever calls are made on a new memory, a
write fails exactly if its address is above 255 and a load exactly if its program has more than 256
bytes; the fault names that address or length, and no cell changes.  After the calls, the byte read
at an address below 256 is that of the last successful call that covers it, or zero if none does;
reading at any other address fails and names it. -/
theorem read_after_calls (calls : List Call) :
    let made := Made.ofCalls calls
    (∀ address value fault memory,
      (Call.write address value).make made.memory = .error fault memory ↔
        256 ≤ address ∧ fault = .addressOutOfRange address ∧ memory = made.memory) ∧
    (∀ program fault memory,
      (Call.load program).make made.memory = .error fault memory ↔
        256 < program.length ∧ fault = .programTooLarge program.length ∧ memory = made.memory) ∧
    (∀ address, made.memory.read address =
      if address < 256 then .ok ((lastSupplied address made.succeeded).getD 0)
      else .error (.addressOutOfRange address)) := by
  intro made
  refine ⟨fun address value fault memory => ?_, fun program fault memory => ?_, fun address => ?_⟩
  · rw [Call.make_eq_error, Call.perform_write_eq_error, and_assoc]
  · rw [Call.make_eq_error, Call.perform_load_eq_error, and_assoc]
  · rw [Made.holdsLast_ofCalls calls address, read_zero]
    split <;> rfl

/-- A short load leaves the cell behind it, and calls that fail leave them all. -/
example :
    let calls : List Call := [.write 2 0xAA, .load [1, 3], .write 1 9, .write 256 7]
    let memory := (Made.ofCalls calls).memory
    [0, 1, 2, 3].map (fun address => (memory.read address).toOption) =
      [1, 9, 0xAA, 0].map some := by
  decide +kernel

end EightBit.Memory
