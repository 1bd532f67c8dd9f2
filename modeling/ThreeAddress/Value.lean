import ThreeAddress.Binary64.Text
import ThreeAddress.Text.Escaped

namespace ThreeAddress

open Text

/-- What variables and the operand stack hold. A variable is `undefined` from its definition to its
first assignment. Equality is equality of bit patterns on floats. -/
inductive Value
  | undefined
  | nil
  | bool (b : Bool)
  | int (n : Int64)
  | float (x : Binary64)
  | string (s : String)
  deriving DecidableEq

namespace Value

def typeName : Value → String
  | undefined => ""
  | nil => "nil"
  | bool _ => "bool"
  | int _ => "int"
  | float _ => "float"
  | string _ => "string"

def display : Value → String
  | undefined | nil => ""
  | bool b => if b then "true" else "false"
  | int n => String.ofList (Numeral.write n.toInt)
  | float x => String.ofList x.write
  | string s => s

def describe : Value → String
  | undefined => "<undefined>"
  | nil => "nil@nil"
  | string s => "string@" ++ String.ofList (Escaped.encode s.toList)
  | v => v.typeName ++ "@" ++ v.display

end Value

end ThreeAddress
