/-
# EightBit.Proofs.Exactness -- the unit's results as exact numbers

An operation on two registers leaves in the first of them what exact arithmetic gives for the numbers
they held before, whether they are two registers or one (`exactResult`, `toNat_result`).  A comparison
sets the flag and nothing else, and no other operation touches the flag or a further register
(`Leaves`).  What is formed in 32 bits on the way never wraps (`toNat_formed`).

`apply_exact` puts this together for the unit in place, with the faults: an index that names no
register and a divisor of zero are refused, and nothing else is (`apply_eq_error_iff`); then nothing
has changed.
-/
import EightBit.Proofs.Step

namespace EightBit

open Manual

set_option autoImplicit false

/-! ## Registers by their index -/

namespace Manual

variable {byte : UInt8} {r : Register}

theorem ofByte_eq_ok_iff : Register.ofByte byte = .ok r ↔ byte.toNat = r := by
  unfold Register.ofByte
  split
  · next named => simp [Fin.ext_iff]
  · next unnamed =>
    have small := r.isLt
    exact iff_of_false (by simp) (by omega)

theorem registerRefusal_of_ofByte (h : Register.ofByte byte = .ok r) :
    registerRefusal byte = none := by
  rw [registerRefusal_eq_none, ofByte_eq_ok_iff.1 h]
  exact r.isLt

theorem registerRefusal_of_unnamed (unnamed : 8 ≤ byte.toNat) :
    registerRefusal byte = some (.invalidRegister byte) :=
  require_eq_some.2 ⟨Nat.not_lt.2 unnamed, rfl⟩

theorem value_of_ofByte (h : Register.ofByte byte = .ok r) (registers : Registers) :
    value registers byte = registers.get r := by
  simp [value, Registers.read, h, Except.map, Except.toOption]

theorem assign_of_ofByte (h : Register.ofByte byte = .ok r) (registers : Registers) (v : UInt8) :
    assign registers byte v = registers.set r v := by
  simp [assign, Registers.write, h, Except.map, Except.toOption]

end Manual

namespace Alu

/-! ## Exact numbers -/

/-- The number an operation leaves in its first register, from the numbers in its two registers.
Nothing that is formed on the way has a bound. -/
def exactResult (op : AluOp) (x y : Nat) : Nat :=
  match op with
  | .add => (x + y) % 255
  | .mul => (x * y) % 255
  | .shl => (x * 2 ^ y) % 255
  | .shr => x / 2 ^ y
  | .mod => x % y
  | .and => x &&& y
  | .or => x ||| y
  | .xor => x ^^^ y
  | .not => 255 - x
  | .cmp => x

theorem toNat_result (op : AluOp) (x y : UInt8) :
    (result op x y).toNat = exactResult op x.toNat y.toNat := by
  have byte {n : Nat} (small : n < 256) : (UInt8.ofNat n).toNat = n := UInt8.toNat_ofNat_of_lt' small
  have residue (n : Nat) : n % 255 < 256 := by omega
  have hx : x.toNat < 256 := x.toNat_lt
  cases op with
  | add | mul | shl => exact byte (residue _)
  | shr => exact byte (Nat.lt_of_le_of_lt (Nat.div_le_self _ _) hx)
  | mod => exact byte (Nat.lt_of_le_of_lt (Nat.mod_le _ _) hx)
  | and => exact UInt8.toNat_and x y
  | or => exact UInt8.toNat_or x y
  | xor => exact UInt8.toNat_xor x y
  | not => exact UInt8.toNat_not x
  | cmp => rfl

/-- The number that an operation forms in 32 bits and then reduces. -/
def formed (op : AluOp) (x y : UInt8) : Option UInt32 :=
  match op with
  | .add => some (x.toUInt32 + y.toUInt32)
  | .mul => some (x.toUInt32 * y.toUInt32)
  | .shl => some (x.toUInt32 <<< (y % 8).toUInt32)
  | _ => none

/-- That number without a bound. -/
def formedExactly (op : AluOp) (x y : Nat) : Nat :=
  match op with
  | .add => x + y
  | .mul => x * y
  | .shl => x * 2 ^ (y % 8)
  | _ => 0

theorem compute_of_formed {op : AluOp} {x y : UInt8} {n : UInt32} (h : formed op x y = some n) :
    compute op x y = .ok (.value (reduce n)) := by
  cases op with
  | add | mul | shl =>
    obtain rfl := Option.some.inj h
    rfl
  | shr | mod | and | or | xor | not | cmp => cases h

/-- The 32 bits never wrap. -/
theorem toNat_formed {op : AluOp} {x y : UInt8} {n : UInt32} (h : formed op x y = some n) :
    n.toNat = formedExactly op x.toNat y.toNat := by
  cases op with
  | add =>
    obtain rfl := Option.some.inj h
    exact toNat_sum x y
  | mul =>
    obtain rfl := Option.some.inj h
    exact toNat_product x y
  | shl =>
    obtain rfl := Option.some.inj h
    exact toNat_shl x y
  | shr | mod | and | or | xor | not | cmp => cases h

/-! ## The unit in place -/

/-- What an operation leaves of the registers and the flag, from the number `x` in its first register
`r` and the second number `y`. -/
structure Leaves (op : AluOp) (r : Register) (x y : Nat) (before after : Registers × Flag) :
    Prop where
  target : (after.1.get r).toNat = exactResult op x y
  others : ∀ s, s ≠ r → after.1.get s = before.1.get s
  compared : op = .cmp → after = (before.1, .ofOrdering (compare x y))
  flag : op ≠ .cmp → after.2 = before.2

theorem leaves_of_cmp (r : Register) (y : UInt8) (registers : Registers) (flag : Flag) :
    Leaves .cmp r (registers.get r).toNat y.toNat (registers, flag)
      (registers, comparison (registers.get r) y) where
  target := rfl
  others _ _ := rfl
  compared _ := by rw [ofOrdering_compare]
  flag differs := absurd rfl differs

theorem leaves_of_ne_cmp {op : AluOp} (stores : op ≠ .cmp) {r : Register} {x y : Nat} {v : UInt8}
    (registers : Registers) (flag : Flag) (value : v.toNat = exactResult op x y) :
    Leaves op r x y (registers, flag) (registers.set r v, flag) where
  target := by rw [Registers.get_set_self, value]
  others _ ne := Registers.get_set_of_ne registers ne.symm v
  compared compares := absurd compares stores
  flag _ := rfl

/-- The operation takes `y` for its second number: what the register named by `b` holds.  The
complement has none, so anything will do. -/
def Takes (op : AluOp) (b : UInt8) (registers : Registers) (y : Nat) : Prop :=
  op = .not ∨ ∃ s, Register.ofByte b = .ok s ∧ (registers.get s).toNat = y

theorem exists_leaves {op : AluOp} {a b : UInt8} {r : Register} {y : Nat} {registers : Registers}
    (named : Register.ofByte a = .ok r) (second : Takes op b registers y)
    (divides : ¬ (op = .mod ∧ y = 0)) (flag : Flag) :
    ∃ after, apply op a b (registers, flag) = .ok () after ∧
      Leaves op r (registers.get r).toNat y (registers, flag) after := by
  have allowed := registerRefusal_of_ofByte named
  rcases second with rfl | ⟨s, named_b, rfl⟩
  · rw [apply_of_registers allowed (.inl rfl), value_of_ofByte named, assign_of_ofByte named]
    exact ⟨_, rfl, leaves_of_ne_cmp (by simp) registers flag (toNat_result .not _ 0)⟩
  · have nonzero : ¬ (op = .mod ∧ registers.get s = 0) := fun ⟨is_mod, zero⟩ =>
      divides ⟨is_mod, by rw [zero]; rfl⟩
    rw [apply_of_registers allowed (.inr (registerRefusal_of_ofByte named_b)),
      value_of_ofByte named, value_of_ofByte named_b, if_neg nonzero, assign_of_ofByte named]
    by_cases compares : op = .cmp
    · subst compares
      exact ⟨_, rfl, leaves_of_cmp r (registers.get s) registers flag⟩
    · rw [if_neg compares]
      exact ⟨_, rfl, leaves_of_ne_cmp compares registers flag (toNat_result op _ _)⟩

section Faults

variable {op : AluOp} {a b : UInt8} {registers : Registers} {flag : Flag} {fault : Fault}
  {after : Registers × Flag}

theorem eq_of_apply_error (h : apply op a b (registers, flag) = .error fault after) :
    after = (registers, flag) ∧
      (fault = .invalidRegister a ∧ 8 ≤ a.toNat ∨
        a.toNat < 8 ∧ op ≠ .not ∧ fault = .invalidRegister b ∧ 8 ≤ b.toNat ∨
        a.toNat < 8 ∧ op = .mod ∧ fault = .divideByZero ∧ registers.read b = .ok 0) := by
  cases first : registerRefusal a with
  | some cause =>
    obtain ⟨unnamed, rfl⟩ := require_eq_some.1 first
    rw [apply_of_first_refused first] at h
    cases h
    exact ⟨rfl, .inl ⟨rfl, Nat.not_lt.1 unnamed⟩⟩
  | none =>
    have named := registerRefusal_eq_none.1 first
    by_cases unary : op = .not
    · subst unary
      simp [apply_of_registers first] at h
    cases second : registerRefusal b with
    | some cause =>
      obtain ⟨unnamed, rfl⟩ := require_eq_some.1 second
      rw [apply_of_second_refused first unary second] at h
      cases h
      exact ⟨rfl, .inr (.inl ⟨named, unary, rfl, Nat.not_lt.1 unnamed⟩)⟩
    | none =>
      rw [apply_of_registers first (.inr second)] at h
      split at h
      · next zero =>
        cases h
        have read := read_of_registerRefusal second registers
        rw [zero.2] at read
        exact ⟨rfl, .inr (.inr ⟨named, zero.1, rfl, read⟩)⟩
      · split at h <;> cases h

/-- A divisor of zero is refused. -/
theorem apply_of_zero_divisor (named : registerRefusal a = none) (zero : registers.read b = .ok 0)
    (flag : Flag) :
    apply .mod a b (registers, flag) = .error .divideByZero (registers, flag) := by
  cases second : registerRefusal b with
  | some cause =>
    rw [read_error_of_registerRefusal second] at zero
    cases zero
  | none =>
    rw [read_of_registerRefusal second] at zero
    rw [apply_of_registers named (.inr second), if_pos ⟨rfl, Except.ok.inj zero⟩]

/-- The unit refuses an index that names no register, looking at the first operand first, and a
divisor of zero.  It refuses nothing else, and changes nothing then. -/
theorem apply_eq_error_iff :
    apply op a b (registers, flag) = .error fault after ↔ after = (registers, flag) ∧
      (fault = .invalidRegister a ∧ 8 ≤ a.toNat ∨
        a.toNat < 8 ∧ op ≠ .not ∧ fault = .invalidRegister b ∧ 8 ≤ b.toNat ∨
        a.toNat < 8 ∧ op = .mod ∧ fault = .divideByZero ∧ registers.read b = .ok 0) := by
  constructor
  · exact eq_of_apply_error
  · rintro ⟨rfl, ⟨rfl, unnamed⟩ | ⟨named, binary, rfl, unnamed⟩ | ⟨named, rfl, rfl, zero⟩⟩
    · exact apply_of_first_refused (registerRefusal_of_unnamed unnamed) op b _
    · exact apply_of_second_refused (registerRefusal_eq_none.2 named) binary
        (registerRefusal_of_unnamed unnamed) _
    · exact apply_of_zero_divisor (registerRefusal_eq_none.2 named) zero flag

end Faults

/-- **The unit computes exactly.**  An operation on registers that exist leaves the exact result in
the first of them, unless its divisor is zero.  It is refused exactly if an index names no register
or its divisor is zero, and that leaves registers and flag alone.  What is formed in 32 bits is formed
exactly. -/
theorem apply_exact (op : AluOp) (a b : UInt8) (registers : Registers) (flag : Flag) :
    (∀ r y, Register.ofByte a = .ok r → Takes op b registers y → ¬ (op = .mod ∧ y = 0) →
      ∃ after, apply op a b (registers, flag) = .ok () after ∧
        Leaves op r (registers.get r).toNat y (registers, flag) after) ∧
    (∀ fault after, apply op a b (registers, flag) = .error fault after ↔
      after = (registers, flag) ∧
        (fault = .invalidRegister a ∧ 8 ≤ a.toNat ∨
          a.toNat < 8 ∧ op ≠ .not ∧ fault = .invalidRegister b ∧ 8 ≤ b.toNat ∨
          a.toNat < 8 ∧ op = .mod ∧ fault = .divideByZero ∧ registers.read b = .ok 0)) ∧
    (∀ x y n, formed op x y = some n →
      compute op x y = .ok (.value (reduce n)) ∧
        n.toNat = formedExactly op x.toNat y.toNat) := by
  refine ⟨fun r y named second divides => ?_, fun fault after => ?_, fun x y n form => ?_⟩
  · exact exists_leaves named second divides flag
  · exact apply_eq_error_iff
  · exact ⟨compute_of_formed form, toNat_formed form⟩

/-- The stack pointer is shifted left by itself, which is 244 places; and a remainder by zero is
refused. -/
theorem apply_exact_shl_sp :
    (∃ after, apply .shl 7 7 (.initial, .uninit) = .ok () after ∧
      (after.1.get .sp).toNat = 244 * 2 ^ 244 % 255 ∧ after.2 = .uninit ∧
        ∀ s, s ≠ .sp → after.1.get s = Registers.initial.get s) ∧
    (∃ after, apply .mod 7 0 (.initial, .less) = .error .divideByZero after ∧
      after = (.initial, .less)) ∧
    formed .mul 255 255 = some 65025 ∧ (65025 : UInt32).toNat = 255 * 255 := by
  have shift := (apply_exact .shl 7 7 .initial .uninit).1 .sp 244 rfl (.inr ⟨.sp, rfl, rfl⟩) (by simp)
  obtain ⟨after, done, leaves⟩ := shift
  have refused := ((apply_exact .mod 7 0 .initial .less).2.1 .divideByZero (.initial, .less)).2
    ⟨rfl, .inr (.inr ⟨by decide, rfl, rfl, rfl⟩)⟩
  have product := (apply_exact .mul 0 0 .initial .less).2.2 255 255 65025 rfl
  exact ⟨⟨after, done, leaves.target, leaves.flag (by simp), leaves.others⟩, ⟨_, refused, rfl⟩, rfl,
    product.2⟩

end Alu

end EightBit
