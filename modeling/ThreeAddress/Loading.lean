import ThreeAddress.LoadError
import ThreeAddress.Program
import ThreeAddress.ReadType

namespace ThreeAddress

open Text Markup

inductive ArgumentType
  | var
  | label
  | type
  | string
  | int
  | bool
  | float
  | nil
  deriving DecidableEq

namespace ArgumentType

def name : ArgumentType → String
  | var => "var"
  | label => "label"
  | type => "type"
  | string => "string"
  | int => "int"
  | bool => "bool"
  | float => "float"
  | nil => "nil"

def all : List ArgumentType := [var, label, type, string, int, bool, float, nil]

def ofName? (text : String) : Option ArgumentType := all.find? (·.name == text)

end ArgumentType

def literalOr (e : DecodeError) : Option Value → Except DecodeError Argument
  | some x => .ok (.literal x)
  | none => .error e

def Argument.decode (text : String) : ArgumentType → Except DecodeError Argument
  | .var => (VarRef.ofText text).map .var
  | .label =>
    if isIdentifier text.toList then .ok (.label text) else .error (.invalidIdentifier text)
  | .type =>
    if (ReadType.ofName? text).isSome then .ok (.type text) else .error (.invalidTypeName text)
  | .string => literalOr (.invalidString text)
    ((Escaped.decode text.toList).map fun s ↦ .string (String.ofList s))
  | .int => literalOr (.invalidInt text) ((Numeral.int64? text.toList).map .int)
  | .bool => literalOr (.invalidBool text)
    (if text = "true" then some (.bool true)
      else if text = "false" then some (.bool false)
      else none)
  | .float => literalOr (.invalidFloat text) ((Binary64.read? text.toList).map .float)
  | .nil => literalOr (.invalidNil text) (if text = "nil" then some .nil else none)

/-- A positive number below `2 ^ 64`, perhaps with a plus sign and blanks around. -/
def readOrder (text : String) : Except LoadError Nat :=
  let s := match trim text.toList with
    | '+' :: s => s
    | s => s
  match Numeral.natural? s with
  | some n => if 0 < n ∧ n < UInt64.size then .ok n else .error (.invalidOrder text)
  | none => .error (.invalidOrder text)

namespace Markup.Element

def required (e : Element) (element key : String) : Except LoadError String :=
  match e.attribute? key with
  | some text => .ok text
  | none => .error (.missingAttribute element key)

def slotNames : List String := ["arg1", "arg2", "arg3"]

def checkSlot (order : Nat) (seen : List String) (e : Element) : Except LoadError (List String) :=
  if e.name ∉ slotNames then .error (.unexpectedElement e.name "instruction")
  else if e.name ∈ seen then .error (.duplicateArgument order e.name)
  else .ok (e.name :: seen)

/-- The arguments of an instruction by ascending number; no number may be left out. -/
def slots (e : Element) (order : Nat) : Except LoadError (List Element) := do
  let _ ← e.children.foldlM (checkSlot order) []
  let filled := slotNames.filterMap fun name ↦ e.children.find? (·.name == name)
  if filled.map name = slotNames.take filled.length then .ok filled
  else .error (.argumentGap order)

def toArgument (e : Element) (order : Nat) : Except LoadError Argument := do
  let name ← e.required "argument" "type"
  match ArgumentType.ofName? name with
  | none => .error (.unknownArgumentType order name)
  | some declared => (Argument.decode e.text declared).mapError (.invalidLiteral order)

/-- The arguments in the slots from `slot` on, with the kinds that these ask for. -/
def toArguments (order : Nat) (opcode : Opcode) (slot : Nat) :
    List (Element × OperandKind) → Except LoadError (List Argument)
  | [] => .ok []
  | (e, kind) :: r => do
    let a ← e.toArgument order
    if a.fits kind then
      return a :: (← toArguments order opcode (slot + 1) r)
    else .error (.operandKind order opcode slot kind)

def toInstruction (e : Element) : Except LoadError Instruction := do
  if e.name ≠ "instruction" then .error (.unexpectedElement e.name "program")
  let name ← e.required "instruction" "opcode"
  let opcode ← (Opcode.ofMnemonic name).mapError fun _ ↦ .unknownOpcode name
  let order ← readOrder (← e.required "instruction" "order")
  let slots ← e.slots order
  if slots.length ≠ opcode.signature.length then
    .error (.argumentCount order opcode slots.length)
  let arguments ← toArguments order opcode 1 (slots.zip opcode.signature)
  return { order, opcode, arguments }

def addInstruction (l : List Instruction) (e : Element) : Except LoadError (List Instruction) := do
  let i ← e.toInstruction
  if l.any (·.order == i.order) then .error (.duplicateOrder i.order) else .ok (i :: l)

def toProgram (e : Element) : Except LoadError Program := do
  if e.name ≠ "program" then .error (.unexpectedRoot e.name)
  let language := (e.attribute? "language").getD ""
  if !sameLetters language "IPPcode22" then .error (.language language)
  let l ← e.children.foldlM addInstruction []
  return .ofList l.reverse

end Markup.Element

def Program.load (text : String) : Except LoadError Program := do
  let e ← (Element.read text).mapError .malformed
  e.toProgram

end ThreeAddress
