import ThreeAddress.Markup.Element
import ThreeAddress.Opcode

namespace ThreeAddress

/-- Why a document is no program. Slots are counted from one. -/
inductive LoadError
  | malformed (reason : Markup.Malformed)
  | unexpectedRoot (name : String)
  | language (found : String)
  | unexpectedElement (name parent : String)
  | missingAttribute (element key : String)
  | unknownOpcode (name : String)
  | invalidOrder (text : String)
  | duplicateOrder (order : Nat)
  | duplicateArgument (order : Nat) (name : String)
  | argumentGap (order : Nat)
  | argumentCount (order : Nat) (opcode : Opcode) (found : Nat)
  | operandKind (order : Nat) (opcode : Opcode) (slot : Nat) (expected : OperandKind)
  | unknownArgumentType (order : Nat) (name : String)
  | invalidLiteral (order : Nat) (reason : DecodeError)
  deriving DecidableEq

inductive LoadErrorKind
  | format
  | structural
  deriving DecidableEq

def LoadErrorKind.exitCode : LoadErrorKind → Nat
  | format => 31
  | structural => 32

namespace LoadError

def kind : LoadError → LoadErrorKind
  | malformed _ => .format
  | _ => .structural

def message : LoadError → String
  | malformed reason => s!"malformed XML: {reason.message}"
  | unexpectedRoot name => s!"unexpected root element '{name}', expected 'program'"
  | language found => s!"unsupported language '{found}', expected 'IPPcode22'"
  | unexpectedElement name parent => s!"unexpected element '{name}' in '{parent}'"
  | missingAttribute element key =>
    s!"element '{element}' is missing attribute '{key}'"
  | unknownOpcode name => s!"unknown opcode '{name}'"
  | invalidOrder text => s!"invalid order '{text}'"
  | duplicateOrder order => s!"duplicate order {order}"
  | duplicateArgument order name => s!"instruction {order}: duplicate argument '{name}'"
  | argumentGap order =>
    s!"instruction {order}: arguments must be numbered consecutively from arg1"
  | argumentCount order opcode found =>
    s!"instruction {order}: {opcode.mnemonic} expects {opcode.signature.length} argument(s), " ++
      s!"found {found}"
  | operandKind order opcode slot expected =>
    s!"instruction {order}: argument {slot} of {opcode.mnemonic} must be {expected.name}"
  | unknownArgumentType order name => s!"instruction {order}: unknown argument type '{name}'"
  | invalidLiteral order reason => s!"instruction {order}: {reason.message}"

end LoadError

end ThreeAddress
