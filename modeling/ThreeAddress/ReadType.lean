import ThreeAddress.Fault

namespace ThreeAddress

open Text

inductive ReadType
  | int
  | bool
  | string
  | float
  deriving DecidableEq

namespace ReadType

def ofName? (name : String) : Option ReadType :=
  if name = "int" then some int
  else if name = "bool" then some bool
  else if name = "string" then some string
  else if name = "float" then some float
  else none

def read? (t : ReadType) (line : String) : Option Value :=
  match t with
  | int => (Numeral.int64? (trim line.toList)).map .int
  | bool => some (.bool (sameLetters line "true"))
  | string => some (.string line)
  | float => (Binary64.read? line.toList).map .float

end ReadType

/-- A line that is missing or not of the given type is read as `nil`. -/
def Value.ofLine (type : String) (line : Option String) : Except Fault Value :=
  match ReadType.ofName? type with
  | some t => .ok ((line.bind t.read?).getD .nil)
  | none => .error (.unsupportedReadType type)

end ThreeAddress
