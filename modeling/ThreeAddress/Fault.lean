import ThreeAddress.Instruction

namespace ThreeAddress

/-- What goes wrong when an instruction runs, or its labels are resolved. -/
inductive Fault
  | duplicateLabel (label : String)
  | undefinedLabel (label : String)
  | variableRedefinition (v : VarRef)
  | typeMismatch
  | undefinedVariable (v : VarRef)
  | nonexistentFrame (kind : FrameKind)
  | missingValue
  | emptyOperandStack
  | emptyCallStack
  | divisionByZero
  | exitCodeOutOfRange (code : Int64)
  | unsupportedReadType (name : String)
  | floatToIntOverflow
  | indexOutOfRange (index : Int64) (length : Nat)
  | invalidCodepoint (n : Int64)
  | emptyReplacement
  | malformedOperand (index : Nat)
  | output
  deriving DecidableEq

inductive FaultKind
  | semantic
  | wrongType
  | undefinedVariable
  | nonexistentFrame
  | missingValue
  | wrongValue
  | stringHandling
  | internal
  deriving DecidableEq

def FaultKind.exitCode : FaultKind → Nat
  | semantic => 52
  | wrongType => 53
  | undefinedVariable => 54
  | nonexistentFrame => 55
  | missingValue => 56
  | wrongValue => 57
  | stringHandling => 58
  | internal => 99

def Fault.kind : Fault → FaultKind
  | duplicateLabel _ | undefinedLabel _ | variableRedefinition _ => .semantic
  | typeMismatch => .wrongType
  | undefinedVariable _ => .undefinedVariable
  | nonexistentFrame _ => .nonexistentFrame
  | missingValue | emptyOperandStack | emptyCallStack => .missingValue
  | divisionByZero | exitCodeOutOfRange _ | unsupportedReadType _ | floatToIntOverflow =>
    .wrongValue
  | indexOutOfRange _ _ | invalidCodepoint _ | emptyReplacement => .stringHandling
  | malformedOperand _ | output => .internal

structure RuntimeError where
  fault : Fault
  order : Nat
  opcode : Opcode
  deriving DecidableEq

namespace RuntimeError

def ofInstruction (i : Instruction) (f : Fault) : RuntimeError := ⟨f, i.order, i.opcode⟩

def cause (e : RuntimeError) : String :=
  match e.fault with
  | .duplicateLabel label => s!"label '{label}' redefined"
  | .undefinedLabel label => s!"undefined label '{label}'"
  | .variableRedefinition v => s!"variable {v.display} redefined"
  | .typeMismatch => s!"wrong operand types for {e.opcode.mnemonic}"
  | .undefinedVariable v => s!"undefined variable {v.display}"
  | .nonexistentFrame kind => s!"frame {kind.name} does not exist"
  | .missingValue => "missing value"
  | .emptyOperandStack => "operand stack is empty"
  | .emptyCallStack => "call stack is empty"
  | .divisionByZero => "division by zero"
  | .exitCodeOutOfRange code => s!"exit code {code.toInt} out of range 0-49"
  | .unsupportedReadType name => s!"cannot read values of type '{name}'"
  | .floatToIntOverflow => "float not representable as int"
  | .indexOutOfRange index length => s!"index {index.toInt} out of range (length {length})"
  | .invalidCodepoint n => s!"invalid codepoint {n.toInt}"
  | .emptyReplacement => "empty replacement string"
  | .malformedOperand index => s!"malformed operand {index} for {e.opcode.mnemonic}"
  | .output => "output failed"

def refusal : String := "output limit reached"

def message (e : RuntimeError) : String :=
  let text := s!"{e.cause} at instruction {e.order}"
  if e.fault = .output then s!"{text}: {refusal}" else text

end RuntimeError

end ThreeAddress
