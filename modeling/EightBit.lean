import EightBit.Main
import EightBit.Proofs.Atomicity
import EightBit.Proofs.Bounds
import EightBit.Proofs.Capacity
import EightBit.Proofs.Checks
import EightBit.Proofs.Command.Answers
import EightBit.Proofs.Command.Arguments
import EightBit.Proofs.Command.Image
import EightBit.Proofs.Command.Loading
import EightBit.Proofs.Command.Outcome
import EightBit.Proofs.Command.Shortcut
import EightBit.Proofs.Comparison
import EightBit.Proofs.Exactness
import EightBit.Proofs.Files
import EightBit.Proofs.Footprint
import EightBit.Proofs.Halting
import EightBit.Proofs.LastWrite
import EightBit.Proofs.Limit
import EightBit.Proofs.Observation
import EightBit.Proofs.Operands
import EightBit.Proofs.Printout
import EightBit.Proofs.Recurrence
import EightBit.Proofs.Rerun
import EightBit.Proofs.Residues
import EightBit.Proofs.Resumption
import EightBit.Proofs.Return
import EightBit.Proofs.Source.Composition
import EightBit.Proofs.Source.FirstError
import EightBit.Proofs.Source.Literals
import EightBit.Proofs.Source.Meaning
import EightBit.Proofs.Stack
import EightBit.Proofs.Terminal.Dump
import EightBit.Proofs.Terminal.Instructions
import EightBit.Proofs.Terminal.Painting
import EightBit.Proofs.TraceLine
import EightBit.Proofs.TraceLog
import EightBit.Proofs.Truncation
import EightBit.Proofs.Window
