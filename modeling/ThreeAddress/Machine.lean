import ThreeAddress.Frames
import ThreeAddress.Labels
import ThreeAddress.Sink

namespace ThreeAddress

/-- The state of a run. Both stacks have their top first; `calls` holds the positions of the calls
in progress, and `pc` is the position of the next instruction. -/
structure Machine where
  program : Program
  labels : Labels := {}
  frames : Frames := {}
  operands : List Value := []
  calls : List Nat := []
  pc : Nat := 0
  executed : Nat := 0
  input : List UInt8 := []
  output : Sink := {}
  diagnostics : Sink := {}

def Machine.instruction? (m : Machine) : Option Instruction := m.program.instructions[m.pc]?

end ThreeAddress
