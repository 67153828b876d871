/-
# EightBit.Alu -- the arithmetic and logic unit

Every operation takes the values of two registers and either stores a value in the first of them or
sets the flag.  Sums, products and left shifts are reduced modulo 255, so 255 is never stored by
them and a left shift only depends on the shift amount modulo 8, the order of 2 modulo 255.  The
complement looks at one register only.

The unit works on the registers and the flag in place (`Alu.apply`).
-/
import EightBit.Procedure
import EightBit.Flag
import EightBit.Operation
import EightBit.Registers

namespace EightBit

set_option autoImplicit false

namespace Alu

open Procedure

def modulus : UInt32 := 0xFF

/-- The residue of a number as a byte. -/
def reduce (n : UInt32) : UInt8 :=
  (n % modulus).toUInt8

/-- What an operation leaves: a value for its target register, or a flag. -/
inductive Result where
  | value (v : UInt8)
  | flag (f : Flag)
  deriving DecidableEq, Repr

/-- The result of an operation on two values.  Sums, products and shifts are formed in 32 bits,
which hold them without wrapping. -/
def compute (op : AluOp) (x y : UInt8) : Except Fault Result :=
  match op with
  | .add => .ok (.value (reduce (x.toUInt32 + y.toUInt32)))
  | .mul => .ok (.value (reduce (x.toUInt32 * y.toUInt32)))
  | .shl => .ok (.value (reduce (x.toUInt32 <<< (y % 8).toUInt32)))
  | .shr => .ok (.value (if y < 8 then x >>> y else 0))
  | .mod => if y = 0 then .error .divideByZero else .ok (.value (x % y))
  | .and => .ok (.value (x &&& y))
  | .or => .ok (.value (x ||| y))
  | .xor => .ok (.value (x ^^^ y))
  | .not => .ok (.value (~~~x))
  | .cmp => .ok (.flag (.ofOrdering (compare x.toNat y.toNat)))

/-- Apply an operation to the registers named by the operand bytes `a` and `b`, in place.  The
complement has no second value and takes zero for it. -/
def apply (op : AluOp) (a b : UInt8) : Procedure (Registers × Flag) Unit := do
  let x ← orFault ((← get).1.read a)
  let y ← if op = .not then pure 0 else orFault ((← get).1.read b)
  match ← orFault (compute op x y) with
  | .flag f => modify fun (registers, _) => (registers, f)
  | .value v => do
    let registers ← orFault ((← get).1.write a v)
    modify fun (_, flag) => (registers, flag)

/-- What an operation makes of the registers and the flag. -/
def execute (op : AluOp) (a b : UInt8) (registers : Registers) (flag : Flag) :
    Except Fault (Registers × Flag) :=
  match apply op a b (registers, flag) with
  | .ok () after => .ok after
  | .error fault _ => .error fault

end Alu

end EightBit
