/-
# EightBit.Registers -- the eight registers

There are eight byte registers, R0 to R7.  R7 is the stack pointer by convention.  An operand byte
names a register by its index; a byte above 7 names none.

`get_set` is the one equation that relates reading and writing.
-/
import EightBit.Fault

namespace EightBit

set_option autoImplicit false

/-- A register, by its index. -/
abbrev Register : Type := Fin 8

namespace Register

abbrev sp : Register := 7

/-- The register an operand byte names. -/
def ofByte (byte : UInt8) : Except Fault Register :=
  if h : byte.toNat < 8 then .ok ⟨byte.toNat, h⟩ else .error (.invalidRegister byte)

end Register

structure Registers where
  values : Vector UInt8 8
  deriving DecidableEq, Repr

namespace Registers

/-- Where the stack pointer starts; the stack grows down from there. -/
def initialStackPointer : UInt8 := 0xF4

/-- All registers zero but the stack pointer. -/
def initial : Registers :=
  ⟨(Vector.replicate 8 0).set Register.sp initialStackPointer⟩

def get (rs : Registers) (r : Register) : UInt8 :=
  rs.values[r]

def set (rs : Registers) (r : Register) (value : UInt8) : Registers :=
  ⟨rs.values.set r value⟩

/-- The value of the register an operand byte names. -/
def read (rs : Registers) (byte : UInt8) : Except Fault UInt8 :=
  (Register.ofByte byte).map rs.get

/-- The registers with `value` in the register an operand byte names. -/
def write (rs : Registers) (byte value : UInt8) : Except Fault Registers :=
  (Register.ofByte byte).map fun r => rs.set r value

def toList (rs : Registers) : List UInt8 :=
  rs.values.toList

theorem get_set (rs : Registers) (r s : Register) (value : UInt8) :
    (rs.set r value).get s = if r = s then value else rs.get s := by
  simp [get, set, Vector.getElem_set, Fin.ext_iff]

@[simp] theorem get_set_self (rs : Registers) (r : Register) (value : UInt8) :
    (rs.set r value).get r = value := by
  simp [get_set]

theorem get_set_of_ne (rs : Registers) {r s : Register} (ne : r ≠ s) (value : UInt8) :
    (rs.set r value).get s = rs.get s := by
  simp [get_set, ne]

@[ext] theorem ext {a b : Registers} (h : ∀ r, a.get r = b.get r) : a = b := by
  obtain ⟨a⟩ := a
  obtain ⟨b⟩ := b
  have same : a = b := by
    apply Vector.ext
    intro i hi
    exact h ⟨i, hi⟩
  rw [same]

end Registers

end EightBit
