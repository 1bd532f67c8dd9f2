import ThreeAddress.Binary64.Arithmetic
import ThreeAddress.Fault

namespace ThreeAddress

namespace Value

/-- Values of one type are compared, and `nil` with all; it equals itself alone. -/
def equal : Value → Value → Except Fault Bool
  | nil, nil => .ok true
  | nil, _ | _, nil => .ok false
  | bool x, bool y => .ok (x == y)
  | int x, int y => .ok (x == y)
  | float x, float y => .ok (x.eq y)
  | string x, string y => .ok (x == y)
  | _, _ => .error .typeMismatch

/-- The strict order of the values of one type. -/
def less : Value → Value → Except Fault Bool
  | bool x, bool y => .ok (!x && y)
  | int x, int y => .ok (x < y)
  | float x, float y => .ok (x.lt y)
  | string x, string y => .ok (x < y)
  | _, _ => .error .typeMismatch

/-- The quotient rounded down: one less than the truncated one, where that lies above it. -/
def floorDiv (x y : Int64) : Int64 :=
  if x % y ≠ 0 ∧ ¬ (x < 0 ↔ y < 0) then x / y - 1 else x / y

def charAt (s : String) (index : Int64) : Except Fault Char :=
  match if index < 0 then none else s.toList[index.toInt.toNat]? with
  | some c => .ok c
  | none => .error (.indexOutOfRange index s.length)

def concat : Value → Value → Except Fault Value
  | string s, string t => .ok (string (s ++ t))
  | _, _ => .error .typeMismatch

def strlen : Value → Except Fault Value
  | string s => .ok (int (Int64.ofNat s.length))
  | _ => .error .typeMismatch

def getChar : Value → Value → Except Fault Value
  | string s, int i => (charAt s i).map fun c ↦ string (String.singleton c)
  | _, _ => .error .typeMismatch

/-- Puts the first character of the last string at a position of the first one. -/
def setChar : Value → Value → Value → Except Fault Value
  | string s, int i, string r => do
    let _ ← charAt s i
    match r.toList with
    | [] => .error .emptyReplacement
    | c :: _ => .ok (string (String.ofList (s.toList.set i.toInt.toNat c)))
  | _, _, _ => .error .typeMismatch

def exitCode : Value → Except Fault Nat
  | int n =>
    if 0 ≤ n ∧ n ≤ 49 then .ok n.toInt.toNat else .error (.exitCodeOutOfRange n)
  | _ => .error .typeMismatch

end Value

open Value

/-- Integer arithmetic wraps around, and integer division rounds down. -/
def BinaryOp.apply : BinaryOp → Value → Value → Except Fault Value
  | add, .int x, .int y => .ok (.int (x + y))
  | add, .float x, .float y => .ok (.float (x + y))
  | sub, .int x, .int y => .ok (.int (x - y))
  | sub, .float x, .float y => .ok (.float (x - y))
  | mul, .int x, .int y => .ok (.int (x * y))
  | mul, .float x, .float y => .ok (.float (x * y))
  | div, .float x, .float y => if y.isZero then .error .divisionByZero else .ok (.float (x / y))
  | idiv, .int x, .int y =>
    if y = 0 then .error .divisionByZero else .ok (.int (floorDiv x y))
  | idiv, .float x, .float y =>
    if y.isZero then .error .divisionByZero else .ok (.float (x.floorDiv y))
  | lt, a, b => (less a b).map .bool
  | gt, a, b => (less b a).map .bool
  | eq, a, b => (equal a b).map .bool
  | and, .bool x, .bool y => .ok (.bool (x && y))
  | or, .bool x, .bool y => .ok (.bool (x || y))
  | stri2int, .string s, .int i => (charAt s i).map fun c ↦ .int (Int64.ofNat c.toNat)
  | _, _, _ => .error .typeMismatch

def UnaryOp.apply : UnaryOp → Value → Except Fault Value
  | not, .bool x => .ok (.bool !x)
  | int2char, .int n =>
    if 0 ≤ n ∧ n.toInt.toNat.isValidChar then
      .ok (.string (String.singleton (Char.ofNat n.toInt.toNat)))
    else .error (.invalidCodepoint n)
  | int2float, .int n => .ok (.float (Binary64.ofInt n.toInt))
  | float2int, .float x =>
    match x.truncate? with
    | some n =>
      if Text.Numeral.fits64 n then .ok (.int (Int64.ofInt n)) else .error .floatToIntOverflow
    | none => .error .floatToIntOverflow
  | _, _ => .error .typeMismatch

def Condition.holds (c : Condition) (a b : Value) : Except Fault Bool :=
  (equal a b).map fun e ↦ e == (c == eq)

end ThreeAddress
