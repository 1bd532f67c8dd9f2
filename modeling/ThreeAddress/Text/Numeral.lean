import ThreeAddress.Text.Basic

namespace ThreeAddress.Text.Numeral

def natural? (s : List Char) : Option Nat :=
  if s ≠ [] ∧ s.all Char.isDigit then
    some (s.foldl (fun n c ↦ 10 * n + (c.toNat - 48)) 0)
  else none

/-- Digits after at most one sign. -/
def integer? (s : List Char) : Option Int :=
  (natural? (sign s).2).map fun n : Nat ↦ if (sign s).1 then -(n : Int) else n

def fits64 (n : Int) : Bool := Int64.minValue.toInt ≤ n && n ≤ Int64.maxValue.toInt

def int64? (s : List Char) : Option Int64 :=
  (integer? s).bind fun n ↦ if fits64 n then some (Int64.ofInt n) else none

def write (n : Int) : List Char :=
  if n < 0 then '-' :: Nat.toDigits 10 n.natAbs else Nat.toDigits 10 n.natAbs

def hexDigit? (c : Char) : Option Nat :=
  if c.isDigit then some (c.toNat - 48)
  else if 'a' ≤ c ∧ c ≤ 'f' then some (c.toNat - 87)
  else if 'A' ≤ c ∧ c ≤ 'F' then some (c.toNat - 55)
  else none

def hexadecimal? (s : List Char) : Option Nat :=
  s.foldlM (fun n c ↦ (hexDigit? c).map (16 * n + ·)) 0

end ThreeAddress.Text.Numeral
