namespace ThreeAddress

/-- Why a text does not denote what it stands for; each cause carries the whole text. -/
inductive DecodeError
  | unknownOpcode (text : String)
  | unknownFrame (text : String)
  | invalidIdentifier (text : String)
  | invalidTypeName (text : String)
  | invalidString (text : String)
  | invalidInt (text : String)
  | invalidFloat (text : String)
  | invalidBool (text : String)
  | invalidNil (text : String)
  deriving DecidableEq

def DecodeError.message : DecodeError → String
  | .unknownOpcode text => s!"unknown opcode '{text}'"
  | .unknownFrame text => s!"unknown frame prefix in '{text}'"
  | .invalidIdentifier text => s!"invalid identifier '{text}'"
  | .invalidTypeName text => s!"invalid type name '{text}'"
  | .invalidString text => s!"invalid string literal '{text}'"
  | .invalidInt text => s!"invalid int literal '{text}'"
  | .invalidFloat text => s!"invalid float literal '{text}'"
  | .invalidBool text => s!"invalid bool literal '{text}'"
  | .invalidNil text => s!"invalid nil literal '{text}'"

end ThreeAddress
