import ThreeAddress.Markup.Event

namespace ThreeAddress.Markup

open Text

/-- The text of an element is all that stands directly in it. -/
structure Element where
  name : String
  attributes : List (String × String) := []
  children : List Element := []
  text : String := ""

def Element.attribute? (e : Element) (key : String) : Option String := e.attributes.lookup key

inductive Malformed
  | encoding
  | broken
  | secondRoot
  | textOutside
  | verbatimOutside
  | unclosed (name : String)
  | noRoot
  deriving DecidableEq

def Malformed.message : Malformed → String
  | encoding => "invalid UTF-8"
  | broken => "syntax error"
  | secondRoot => "more than one root element"
  | textOutside => "text outside the root element"
  | verbatimOutside => "CDATA outside the root element"
  | unclosed name => s!"unclosed element '{name}'"
  | noRoot => "no root element"

/-- A partly read document: the open elements, innermost first, and the finished root. -/
structure Partial where
  opened : List Element := []
  root : Option Element := none

namespace Partial

def attach (d : Partial) (e : Element) : Except Malformed Partial :=
  match d.opened with
  | p :: r => .ok { d with opened := { p with children := p.children ++ [e] } :: r }
  | [] => if d.root.isSome then .error .secondRoot else .ok { d with root := some e }

/-- Adds text to the innermost open element; outside of all it results in `outside`. -/
def append (d : Partial) (s : String) (outside : Except Malformed Partial) :
    Except Malformed Partial :=
  match d.opened with
  | p :: r => .ok { d with opened := { p with text := p.text ++ s } :: r }
  | [] => outside

/-- Takes in the next piece. A second root is refused before its attributes are looked at. -/
def accept (d : Partial) : Event → Except Malformed Partial
  | .opening name attributes =>
    if d.opened.isEmpty && d.root.isSome then .error .secondRoot
    else match attributes with
      | some attributes => .ok { d with opened := { name, attributes } :: d.opened }
      | none => .error .broken
  | .single name attributes =>
    match attributes with
    | some attributes => d.attach { name, attributes }
    | none => .error .broken
  | .closing name =>
    match d.opened with
    | e :: r => if e.name = name then { d with opened := r }.attach e else .error .broken
    | [] => .error .broken
  | .text none => .error .broken
  | .text (some s) => d.append s (if s.toList.all isBlank then .ok d else .error .textOutside)
  | .verbatim s => d.append s (.error .verbatimOutside)
  | .ignored => .ok d
  | .broken => .error .broken

def finish (d : Partial) : Except Malformed Element :=
  match d.opened, d.root with
  | e :: _, _ => .error (.unclosed e.name)
  | [], some e => .ok e
  | [], none => .error .noRoot

end Partial

namespace Element

def ofEvents (es : List Event) : Except Malformed Element := do
  (← es.foldlM Partial.accept {}).finish

/-- A byte order mark may precede a document. -/
def dropMark : List Char → List Char
  | '\uFEFF' :: s => s
  | s => s

def read (s : String) : Except Malformed Element := ofEvents (events (dropMark s.toList))

end Element

end ThreeAddress.Markup
