/-
# EightBit.Proofs.Arithmetic -- the unit computes what the manual says

The unit forms sums, products and left shifts in 32 bits and shifts left by the amount modulo 8.
The 32 bits never wrap, and 2 to the 8th is 1 modulo 255, so its results are those of exact
arithmetic (`compute_eq`).
-/
import EightBit.Proofs.Manual

namespace EightBit.Alu

open Manual

set_option autoImplicit false

theorem toNat_reduce (n : UInt32) : (reduce n).toNat = n.toNat % 255 := by
  have small : n.toNat % 255 < 256 := by omega
  simp [reduce, modulus, Nat.mod_eq_of_lt small]

theorem reduce_eq {n : UInt32} {k : Nat} (h : n.toNat % 255 = k % 255) :
    reduce n = .ofNat (k % 255) := by
  apply UInt8.toNat.inj
  rw [toNat_reduce, h]
  simp only [UInt8.toNat_ofNat']
  omega

/-- A left shift only depends on its amount modulo 8. -/
theorem two_pow_mod_255 (n : Nat) : 2 ^ (n % 8) % 255 = 2 ^ n % 255 := by
  conv => rhs; rw [← Nat.div_add_mod n 8, Nat.pow_add, Nat.pow_mul, Nat.mul_mod, Nat.pow_mod]
  simp

theorem toNat_sum (x y : UInt8) : (x.toUInt32 + y.toUInt32).toNat = x.toNat + y.toNat := by
  have hx : x.toNat < 256 := x.toNat_lt
  have hy : y.toNat < 256 := y.toNat_lt
  simp [UInt32.toNat_add]
  omega

theorem toNat_product (x y : UInt8) : (x.toUInt32 * y.toUInt32).toNat = x.toNat * y.toNat := by
  have hx : x.toNat < 256 := x.toNat_lt
  have hy : y.toNat < 256 := y.toNat_lt
  have room : x.toNat * y.toNat ≤ 255 * 255 := Nat.mul_le_mul (by omega) (by omega)
  simp [UInt32.toNat_mul]
  omega

theorem toNat_shl (x y : UInt8) :
    (x.toUInt32 <<< (y % 8).toUInt32).toNat = x.toNat * 2 ^ (y.toNat % 8) := by
  have amount : y.toNat % 8 < 8 := Nat.mod_lt _ (by decide)
  have value : x.toNat < 256 := x.toNat_lt
  have power : 2 ^ (y.toNat % 8) ≤ 2 ^ 7 := Nat.pow_le_pow_right (by decide) (by omega)
  have room : x.toNat * 2 ^ (y.toNat % 8) ≤ 255 * 2 ^ 7 := Nat.mul_le_mul (by omega) power
  simp [UInt32.toNat_shiftLeft, Nat.shiftLeft_eq, Nat.mod_eq_of_lt (show y.toNat % 8 < 32 by omega)]
  omega

theorem shr_eq (x y : UInt8) : (if y < 8 then x >>> y else 0) = .ofNat (x.toNat / 2 ^ y.toNat) := by
  have value : x.toNat < 256 := x.toNat_lt
  apply UInt8.toNat.inj
  have quotient : x.toNat / 2 ^ y.toNat < 256 := Nat.lt_of_le_of_lt (Nat.div_le_self _ _) value
  rw [UInt8.toNat_ofNat', Nat.mod_eq_of_lt quotient]
  split
  · next small =>
    have : y.toNat % 8 = y.toNat := Nat.mod_eq_of_lt (UInt8.lt_iff_toNat_lt.1 small)
    rw [UInt8.toNat_shiftRight, Nat.shiftRight_eq_div_pow, this]
  · next large =>
    have amount : 8 ≤ y.toNat := Nat.not_lt.1 fun h => large (UInt8.lt_iff_toNat_lt.2 h)
    have power : 2 ^ 8 ≤ 2 ^ y.toNat := Nat.pow_le_pow_right (by decide) amount
    exact (Nat.div_eq_of_lt (by omega)).symm

theorem ofOrdering_compare (x y : UInt8) :
    Flag.ofOrdering (compare x.toNat y.toNat) = comparison x y := by
  unfold comparison
  rw [Nat.compare_eq_ite_lt]
  simp only [UInt8.lt_iff_toNat_lt]
  split
  · rfl
  · split <;> rfl

/-- The unit refuses a zero divisor and otherwise computes what the manual says. -/
theorem compute_eq (op : AluOp) (x y : UInt8) :
    compute op x y =
      if op = .mod ∧ y = 0 then .error .divideByZero
      else .ok (if op = .cmp then .flag (comparison x y) else .value (Manual.result op x y)) := by
  have hx : x.toNat < 256 := x.toNat_lt
  cases op with
  | add => simp [compute, Manual.result, reduce_eq (congrArg (· % 255) (toNat_sum x y))]
  | mul => simp [compute, Manual.result, reduce_eq (congrArg (· % 255) (toNat_product x y))]
  | shl =>
    have residue : (x.toUInt32 <<< (y % 8).toUInt32).toNat % 255 = x.toNat * 2 ^ y.toNat % 255 := by
      rw [toNat_shl, Nat.mul_mod, two_pow_mod_255, ← Nat.mul_mod]
    simp only [compute, reduce_eq residue]
    simp [Manual.result]
  | shr => simp [compute, Manual.result, shr_eq]
  | mod =>
    by_cases zero : y = 0
    · simp [compute, zero]
    · have small : x.toNat % y.toNat < 256 := Nat.lt_of_le_of_lt (Nat.mod_le _ _) hx
      simp [compute, zero, Manual.result, ← UInt8.toNat_inj, UInt8.toNat_mod,
        Nat.mod_eq_of_lt small]
  | cmp => simp [compute, ofOrdering_compare]
  | and | or | xor | not => simp [compute, Manual.result]

end EightBit.Alu
