/-
# EightBit.Proofs.Residues -- sums and products are arithmetic modulo 255

A sum or a product leaves the residue of its exact result, and residues may stand for the numbers
they come from in further sums and products.  So a list of them does to the registers what it does
to numbers without a bound, modulo 255, whichever registers it names and however often.

Zero has a second byte, 255, which a register may hold at the start and no sum or product stores.
So registers are congruent to the numbers they stand for, those that have been a target hold the
residue itself, and the others hold what they held (`Tracks`).  `exists_tracks_concat` says that one
more calculation keeps this, and `exists_tracks_append` that a list of them does.
-/
import EightBit.Proofs.Exactness
import Mathlib.Data.Nat.ModEq
import Mathlib.Logic.Function.Basic

namespace EightBit.Alu

open Manual

set_option autoImplicit false

/-! ## Calculations -/

/-- A sum or a product of two registers that exist, which may be one, into the first of them. -/
structure Calculation where
  op : AluOp
  a : UInt8
  b : UInt8
  forms : op = .add ∨ op = .mul
  first : a.toNat < 8
  second : b.toNat < 8

namespace Calculation

def target (c : Calculation) : Register :=
  ⟨c.a.toNat, c.first⟩

def source (c : Calculation) : Register :=
  ⟨c.b.toNat, c.second⟩

/-- What the calculation makes of numbers without a bound. -/
def exactly (c : Calculation) (numbers : Register → Nat) : Register → Nat :=
  Function.update numbers c.target
    (formedExactly c.op (numbers c.target) (numbers c.source))

end Calculation

/-- Carry out calculations in place, one after the other. -/
def calculate : List Calculation → Procedure (Registers × Flag) Unit
  | [] => pure ()
  | c :: rest => do
    apply c.op c.a c.b
    calculate rest

/-- What calculations make of numbers without a bound, one after the other. -/
def calculateExactly (numbers : Register → Nat) (calculations : List Calculation) :
    Register → Nat :=
  calculations.foldl (fun numbers c => c.exactly numbers) numbers

def numbers (registers : Registers) : Register → Nat :=
  fun r => (registers.get r).toNat

theorem calculateExactly_concat (numbers : Register → Nat) (done : List Calculation)
    (c : Calculation) :
    calculateExactly numbers (done ++ [c]) = c.exactly (calculateExactly numbers done) := by
  rw [calculateExactly, List.foldl_append]
  rfl

/-! ## One calculation -/

section

variable {op : AluOp} {x y x' y' : Nat}

theorem exactResult_eq_mod (forms : op = .add ∨ op = .mul) :
    exactResult op x y = formedExactly op x y % 255 := by
  rcases forms with rfl | rfl <;> rfl

/-- Residues may stand for the numbers they come from. -/
theorem formedExactly_modEq (forms : op = .add ∨ op = .mul) (first : x ≡ x' [MOD 255])
    (second : y ≡ y' [MOD 255]) : formedExactly op x y ≡ formedExactly op x' y' [MOD 255] := by
  rcases forms with rfl | rfl
  · exact first.add second
  · exact first.mul second

end

/-- A calculation is carried out, and leaves the residue of its exact result and the flag. -/
theorem exists_of_calculation (c : Calculation) (registers : Registers) (flag : Flag) :
    ∃ after, apply c.op c.a c.b (registers, flag) = .ok () (after, flag) ∧
      (after.get c.target).toNat =
        formedExactly c.op (numbers registers c.target) (numbers registers c.source) % 255 ∧
      ∀ r, r ≠ c.target → after.get r = registers.get r := by
  have named : Register.ofByte c.a = .ok c.target := ofByte_eq_ok_iff.2 rfl
  have takes : Takes c.op c.b registers (numbers registers c.source) :=
    .inr ⟨c.source, ofByte_eq_ok_iff.2 rfl, rfl⟩
  obtain ⟨no_remainder, no_comparison⟩ : c.op ≠ .mod ∧ c.op ≠ .cmp := by
    rcases c.forms with sum | product
    · simp [sum]
    · simp [product]
  obtain ⟨⟨after, flag'⟩, done, leaves⟩ :=
    exists_leaves named takes (fun ⟨remainder, _⟩ => no_remainder remainder) flag
  obtain rfl : flag' = flag := leaves.flag no_comparison
  exact ⟨after, done, leaves.target.trans (exactResult_eq_mod c.forms), leaves.others⟩

/-! ## Many calculations -/

/-- The registers `now` stand for the numbers that the list `done` makes of those in `start`. -/
structure Tracks (start : Registers) (done : List Calculation) (now : Registers) : Prop where
  congruent : ∀ r, (now.get r).toNat ≡ calculateExactly (numbers start) done r [MOD 255]
  residue : ∀ c ∈ done,
    (now.get c.target).toNat = calculateExactly (numbers start) done c.target % 255
  untouched : ∀ r, (∀ c ∈ done, c.target ≠ r) → now.get r = start.get r

theorem Tracks.nil (start : Registers) : Tracks start [] start where
  congruent _ := rfl
  residue := by simp
  untouched _ _ := rfl

/-- One more calculation keeps the registers on the track of the exact numbers. -/
theorem exists_tracks_concat {start now : Registers} {done : List Calculation}
    (h : Tracks start done now) (c : Calculation) (flag : Flag) :
    ∃ after, apply c.op c.a c.b (now, flag) = .ok () (after, flag) ∧
      Tracks start (done ++ [c]) after := by
  obtain ⟨after, carried, target, others⟩ := exists_of_calculation c now flag
  have residue : (after.get c.target).toNat =
      calculateExactly (numbers start) (done ++ [c]) c.target % 255 := by
    rw [target, calculateExactly_concat, Calculation.exactly, Function.update_self]
    exact formedExactly_modEq c.forms (h.congruent c.target) (h.congruent c.source)
  have elsewhere : ∀ r, r ≠ c.target →
      calculateExactly (numbers start) (done ++ [c]) r =
        calculateExactly (numbers start) done r := by
    intro r other
    rw [calculateExactly_concat, Calculation.exactly, Function.update_of_ne other]
  refine ⟨after, carried, ?_, ?_, ?_⟩
  · intro r
    by_cases is_target : r = c.target
    · rw [is_target, residue]
      exact Nat.mod_modEq _ _
    · rw [others r is_target, elsewhere r is_target]
      exact h.congruent r
  · intro d member
    by_cases is_target : d.target = c.target
    · rw [is_target, residue]
    · -- the last calculation has another target, so `d` is one of those before it
      have before : d ∈ done := by
        rcases List.mem_append.1 member with before | last
        · exact before
        · exact absurd (congrArg Calculation.target (List.mem_singleton.1 last)) is_target
      rw [others _ is_target, elsewhere _ is_target]
      exact h.residue d before
  · intro r apart
    have other : r ≠ c.target := (apart c (by simp)).symm
    rw [others r other]
    exact h.untouched r fun d before => apart d (List.mem_append_left _ before)

theorem exists_tracks_append {start now : Registers} {done : List Calculation}
    (h : Tracks start done now) (more : List Calculation) (flag : Flag) :
    ∃ after, calculate more (now, flag) = .ok () (after, flag) ∧
      Tracks start (done ++ more) after := by
  induction more generalizing done now with
  | nil => exact ⟨now, rfl, by rwa [List.append_nil]⟩
  | cons c rest ih =>
    obtain ⟨between, carried, tracks⟩ := exists_tracks_concat h c flag
    obtain ⟨after, further, tracks⟩ := ih tracks
    refine ⟨after, ?_, by rwa [List.append_assoc] at tracks⟩
    simp only [calculate, Procedure.bind_apply, carried, further]

/-- **Sums and products are arithmetic modulo 255.**  A list of sums and products on registers that
exist is carried out to its end.  Then every register is congruent to what the list makes of it
without a bound; a register that was a target holds the residue itself, so never 255; and one that
was not holds what it held.  The flag is as it was. -/
theorem calculate_modulo (calculations : List Calculation) (registers : Registers) (flag : Flag) :
    ∃ after, calculate calculations (registers, flag) = .ok () (after, flag) ∧
      (∀ r, (after.get r).toNat ≡
        calculateExactly (numbers registers) calculations r [MOD 255]) ∧
      (∀ c ∈ calculations,
        (after.get c.target).toNat =
          calculateExactly (numbers registers) calculations c.target % 255 ∧
        after.get c.target ≠ 255) ∧
      ∀ r, (∀ c ∈ calculations, c.target ≠ r) → after.get r = registers.get r := by
  obtain ⟨after, carried, tracks⟩ := exists_tracks_append (.nil registers) calculations flag
  refine ⟨after, carried, tracks.congruent, fun c member => ?_, tracks.untouched⟩
  have residue : (after.get c.target).toNat =
      calculateExactly (numbers registers) calculations c.target % 255 := tracks.residue c member
  refine ⟨residue, fun is_255 => ?_⟩
  have reached : (after.get c.target).toNat = 255 := by
    rw [is_255]
    rfl
  omega

/-- Two registers hold 255, and one of them is added to the other: the target holds 0 and the other
is as it was.  The stack pointer is multiplied by itself, and the target is added to it. -/
theorem calculate_modulo_sp :
    let sum : Calculation := ⟨.add, 1, 0, .inl rfl, by decide, by decide⟩
    let square : Calculation := ⟨.mul, 7, 7, .inr rfl, by decide, by decide⟩
    let onto : Calculation := ⟨.add, 7, 1, .inl rfl, by decide, by decide⟩
    let start := (Registers.initial.set 0 255).set 1 255
    ∃ after, calculate [sum, square, onto] (start, .less) = .ok () (after, .less) ∧
      after.get 0 = 255 ∧ (after.get 1).toNat = 0 ∧
      (after.get .sp).toNat = (244 * 244 + (255 + 255)) % 255 := by
  intro sum square onto start
  obtain ⟨after, carried, -, residue, untouched⟩ :=
    calculate_modulo [sum, square, onto] start .less
  have kept : after.get 0 = start.get 0 := by
    apply untouched
    simp only [sum, square, onto]
    decide
  have exact_sum : calculateExactly (numbers start) [sum, square, onto] 1 = 255 + 255 := by
    simp only [sum, square, onto, start]
    decide
  have exact_onto :
      calculateExactly (numbers start) [sum, square, onto] .sp = 244 * 244 + (255 + 255) := by
    simp only [sum, square, onto, start]
    decide
  exact ⟨after, carried, kept, (residue sum (by simp)).1.trans (congrArg (· % 255) exact_sum),
    (residue onto (by simp)).1.trans (congrArg (· % 255) exact_onto)⟩

end EightBit.Alu
