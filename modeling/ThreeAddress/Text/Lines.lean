namespace ThreeAddress.Text

def lineFeed : UInt8 := 10

def carriageReturn : UInt8 := 13

def ofUTF8? (bytes : List UInt8) : Option String := String.fromUTF8? ⟨bytes.toArray⟩

/-- Takes a line off the input, with the line feed that ends it and one carriage return before that.
There is none at the end of the input, and none in a line that is not UTF-8. -/
def takeLine (bytes : List UInt8) : Option String × List UInt8 :=
  match bytes.span (· != lineFeed) with
  | ([], []) => (none, [])
  | (line, []) => (ofUTF8? line, [])
  | (line, _ :: rest) =>
    let line := if line.getLast? = some carriageReturn then line.dropLast else line
    (ofUTF8? line, rest)

end ThreeAddress.Text
