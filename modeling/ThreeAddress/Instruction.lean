import ThreeAddress.Opcode
import ThreeAddress.Value

namespace ThreeAddress

open Text

inductive FrameKind
  | gf
  | lf
  | tf
  deriving DecidableEq

def FrameKind.name : FrameKind → String
  | gf => "GF"
  | lf => "LF"
  | tf => "TF"

def FrameKind.ofName (text : String) : Except DecodeError FrameKind :=
  if text = "GF" then .ok gf
  else if text = "LF" then .ok lf
  else if text = "TF" then .ok tf
  else .error (.unknownFrame text)

def isSpecial (c : Char) : Bool := ['_', '-', '$', '&', '%', '*', '!', '?'].contains c

/-- A letter or one of `_-$&%*!?`, followed by such characters and digits; all of them ASCII. -/
def isIdentifier : List Char → Bool
  | [] => false
  | c :: s => (c.isAlpha || isSpecial c) && s.all fun d ↦ d.isAlphanum || isSpecial d

structure VarRef where
  frame : FrameKind
  name : String
  deriving DecidableEq

def VarRef.display (v : VarRef) : String := v.frame.name ++ "@" ++ v.name

/-- A frame and an identifier with `@` between them. -/
def VarRef.ofText (text : String) : Except DecodeError VarRef :=
  match cut? '@' text.toList with
  | none => .error (.unknownFrame text)
  | some (frame, name) =>
    match FrameKind.ofName (String.ofList frame) with
    | .error _ => .error (.unknownFrame text)
    | .ok kind =>
      if isIdentifier name then .ok ⟨kind, String.ofList name⟩
      else .error (.invalidIdentifier text)

inductive Argument
  | var (v : VarRef)
  | literal (v : Value)
  | label (name : String)
  | type (name : String)
  deriving DecidableEq

namespace Argument

def fits : Argument → OperandKind → Bool
  | var _, .var | var _, .symb | literal _, .symb | label _, .label | type _, .type => true
  | _, _ => false

def display : Argument → String
  | var v => v.display
  | literal v => v.describe
  | label name | type name => name

def label? : Argument → Option String
  | label name => some name
  | _ => none

end Argument

structure Instruction where
  order : Nat
  opcode : Opcode
  arguments : List Argument
  deriving DecidableEq

namespace Instruction

def label? (i : Instruction) : Option String := i.arguments.findSome? Argument.label?

def display (i : Instruction) : String :=
  " ".intercalate (i.opcode.mnemonic :: i.arguments.map Argument.display)

end Instruction

end ThreeAddress
