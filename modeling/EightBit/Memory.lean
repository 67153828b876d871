/-
# EightBit.Memory -- the 256 byte cells

Memory holds one byte at each of the addresses 0 to 255.  Reading or writing any other address is a
fault, and so is loading a program with more bytes than there are cells.  Loading covers the leading
cells only: the cells behind the program keep their bytes.

`read_write_self`, `read_write_of_ne` and `read_load` give the cell read after each operation.
-/
import EightBit.Fault

namespace EightBit

set_option autoImplicit false

abbrev Memory.size : Nat := 256

structure Memory where
  cells : Vector UInt8 Memory.size
  deriving DecidableEq, Repr

namespace Memory

def zero : Memory :=
  ⟨Vector.replicate size 0⟩

def read (m : Memory) (address : Nat) : Except Fault UInt8 :=
  if h : address < size then .ok m.cells[address] else .error (.addressOutOfRange address)

def write (m : Memory) (address : Nat) (value : UInt8) : Except Fault Memory :=
  if h : address < size then .ok ⟨m.cells.set address value⟩
  else .error (.addressOutOfRange address)

/-- Memory with `program` in its leading cells. -/
def load (m : Memory) (program : List UInt8) : Except Fault Memory :=
  if program.length ≤ size then
    .ok ⟨Vector.ofFn fun address => program.getD address m.cells[address]⟩
  else .error (.programTooLarge program.length)

theorem read_of_lt {m : Memory} {address : Nat} (h : address < size) :
    m.read address = .ok m.cells[address] := by
  simp [read, h]

theorem read_of_le {m : Memory} {address : Nat} (h : size ≤ address) :
    m.read address = .error (.addressOutOfRange address) := by
  simp [read, Nat.not_lt.2 h]

theorem lt_of_read {m : Memory} {address : Nat} {value : UInt8} (h : m.read address = .ok value) :
    address < size := by
  refine Nat.lt_of_not_le fun outside => ?_
  simp [read_of_le outside] at h

theorem write_of_lt {m : Memory} {address : Nat} (h : address < size) (value : UInt8) :
    m.write address value = .ok ⟨m.cells.set address value⟩ := by
  simp [write, h]

theorem read_write_self {m m' : Memory} {address : Nat} {value : UInt8}
    (h : m.write address value = .ok m') : m'.read address = .ok value := by
  unfold write at h
  split at h
  · cases h
    simp [read, *]
  · cases h

theorem read_write_of_ne {m m' : Memory} {address other : Nat} {value : UInt8}
    (h : m.write address value = .ok m') (ne : other ≠ address) :
    m'.read other = m.read other := by
  unfold write at h
  split at h
  · cases h
    simp [read, Ne.symm ne]
  · cases h

theorem read_load {m m' : Memory} {program : List UInt8} (h : m.load program = .ok m')
    (address : Nat) :
    m'.read address = (m.read address).map (program.getD address) := by
  unfold load at h
  split at h
  · obtain rfl := Except.ok.inj h
    by_cases lt : address < size
    · rw [read_of_lt lt, read_of_lt lt, Vector.getElem_ofFn]
      rfl
    · rw [read_of_le (Nat.not_lt.1 lt), read_of_le (Nat.not_lt.1 lt)]
      rfl
  · cases h

end Memory

end EightBit
