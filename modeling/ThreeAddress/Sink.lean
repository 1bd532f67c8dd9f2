namespace ThreeAddress

/-- A stream of output that accepts at most `limit` bytes in total. -/
structure Sink where
  accepted : ByteArray := .empty
  limit : Option Nat := none

namespace Sink

def room (s : Sink) (n : Nat) : Nat :=
  match s.limit with
  | some limit => min n (limit - s.accepted.size)
  | none => n

/-- What does not fit is cut off; the flag tells whether all did. -/
def write (s : Sink) (text : String) : Sink × Bool :=
  let bytes := text.toUTF8
  let n := s.room bytes.size
  ({ s with accepted := s.accepted ++ bytes.extract 0 n }, n == bytes.size)

end Sink

end ThreeAddress
