/-
# EightBit.Terminal.RegisterDump -- registers, program counter and flag at a glance

On a full display a register dump is a box with each register in hexadecimal, decimal and binary and
with the program counter and the flag register in its last row.  On a minimal display it is one
plain line for each of them.  A dump is printed piece by piece, and each piece is painted on its
own.
-/
import EightBit.Machine
import EightBit.Terminal.Display

namespace EightBit

set_option autoImplicit false

namespace RegisterDump

open Numeral

def styled (code text : String) : String :=
  String.ofList (Escape.start code) ++ text ++ String.ofList Escape.reset

def dim (text : String) : String := styled "2" text

def bold (text : String) : String := styled "1" text

def italic (text : String) : String := styled "3" text

/-- The registers of a machine with their indices. -/
def numbered (m : Machine) : List (UInt8 × Nat) :=
  m.registers.toList.zipIdx

def plainPieces (m : Machine) : List String :=
  (numbered m).map (fun (value, i) => "R" ++ decimal i ++ " " ++ decimal value.toNat ++ "\n")
    ++ ["PC " ++ decimal m.pc ++ "\n", "FL " ++ binary 3 m.flag.bits.toNat ++ "\n"]

def leftSide : String := dim "│"

/-- The right side of a row and the end of its line. -/
def rightSide : String := " " ++ dim "│" ++ "\n"

def row (value : UInt8) (i : Nat) : List String :=
  [leftSide, " " ++ bold ("R" ++ decimal i) ++ "  ",
    "0x" ++ hex 2 value.toNat ++ "  " ++ alignRight 4 (decimal value.toNat) ++ "  "
      ++ binary 8 value.toNat,
    rightSide]

/-- The top of the box with the headings of the columns. -/
def top : List String :=
  [dim "┌─────────────────────────┐" ++ "\n",
    String.ofList (Escape.start "2") ++ "│     " ++ italic "hex  uint  binary" ++ dim "   │" ++ "\n"]

/-- The last row and the bottom of the box. -/
def bottom (m : Machine) : List String :=
  [leftSide, " " ++ bold "PC" ++ "  0x" ++ hex 2 m.pc,
    "      " ++ bold "FL" ++ "  " ++ binary 3 m.flag.bits.toNat,
    rightSide, dim "└─────────────────────────┘" ++ "\n"]

def boxPieces (m : Machine) : List String :=
  top ++ (numbered m).flatMap (fun (value, i) => row value i) ++ bottom m

def pieces (minimal : Bool) (m : Machine) : List String :=
  if minimal then plainPieces m else boxPieces m

end RegisterDump

/-- What printing a register dump puts on the streams. -/
def Display.registers (d : Display) (channel : Channel) (m : Machine) : Console :=
  d.printAll channel (RegisterDump.pieces d.minimal m)

end EightBit
