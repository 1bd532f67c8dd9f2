import ThreeAddress.Binary64.Leading
import ThreeAddress.Text.Numeral

namespace ThreeAddress.Binary64

open Text

def fractionDigits (n : Nat) : List Char :=
  (List.range 13).map fun i ↦ Nat.digitChar (n >>> (4 * (12 - i)) % 16)

/-- Hexadecimal notation: one digit before the point, thirteen after it and the power of two. -/
def write (x : Binary64) : List Char :=
  if x.isNaN then ['n', 'a', 'n']
  else
    let sign := if x.negative then ['-'] else []
    if x.isInfinite then sign ++ ['i', 'n', 'f']
    else if x.isZero then sign ++ ['0', 'x', '0', '.', '0', 'p', '+', '0']
    else
      let power : Int := if x.biased = 0 then -1022 else (x.biased : Int) - 1023
      sign ++ ['0', 'x', if x.biased = 0 then '0' else '1', '.'] ++ fractionDigits x.fraction ++
        ['p', if power < 0 then '-' else '+'] ++ Nat.toDigits 10 power.natAbs

def pointed (s : List Char) : List Char × Nat :=
  match cut? '.' s with
  | none => (s, 0)
  | some (a, b) => (a ++ b, b.length)

def scaled? (exponent? : List Char → Option Int) (mark : Char) (s : List Char) :
    Option (List Char × Int) :=
  match cut? mark s with
  | none => some (s, 0)
  | some (a, e) => (exponent? e).map (a, ·)

/-- An exponent of two. One that does not fit 64 bits is out of all range, and so is the value that
takes its place. -/
def exponent? (s : List Char) : Option Int :=
  (Numeral.natural? (sign s).2).map fun n : Nat ↦
    let n : Int := if Numeral.fits64 n then n else UInt32.size - 1
    if (sign s).1 then -n else n

def Leading.addDigits? (add : Leading → Nat → Leading) (a : Leading) (s : List Char) :
    Option Leading :=
  s.foldlM (fun a c ↦ (Numeral.hexDigit? c).map (add a)) a

def unmarked : List Char → List Char
  | '0' :: 'x' :: s => s
  | s => s

def hexMagnitude? (s : List Char) : Option Nat := do
  let (s, e) ← scaled? exponent? 'p' (unmarked s)
  let (whole, places) := (cut? '.' s).getD (s, [])
  if whole = [] ∧ places = [] then none
  let a ← Leading.addDigits? Leading.addWhole { scale := e } whole
  let a ← Leading.addDigits? Leading.addPlace a places
  return a.round

/-- The magnitude nearest to `m * 10 ^ e`, where `m` has at most `length` digits. -/
def roundDecimal (m length : Nat) (e : Int) : Nat :=
  if m = 0 ∨ e + length < -400 then 0
  else if 400 < e then infinite
  else if 0 ≤ e then round (m * Nat.pow 10 e.toNat) 0
  else roundRatio m (Nat.pow 10 (-e).toNat) 0

def decimalMagnitude? (s : List Char) : Option Nat := do
  let (s, e) ← scaled? Numeral.integer? 'e' s
  let (s, places) := pointed s
  let m ← Numeral.natural? s
  return roundDecimal m s.length (e - places)

/-- Reads a sign, then one of the words for infinity and for no number or what `magnitude?` reads.
The case of ASCII letters does not matter. -/
def readWith? (magnitude? : List Char → Option Nat) (s : List Char) : Option Binary64 :=
  let t := (sign s).2.map Char.toLower
  if t = ['i', 'n', 'f'] ∨ t = ['i', 'n', 'f', 'i', 'n', 'i', 't', 'y'] then
    some (infinity (sign s).1)
  else if t = ['n', 'a', 'n'] then some nan
  else (magnitude? t).map (ofMagnitude (sign s).1)

def readHex? (s : List Char) : Option Binary64 := readWith? hexMagnitude? (trim s)

def readDecimal? (s : List Char) : Option Binary64 := readWith? decimalMagnitude? (trim s)

/-- Hexadecimal notation takes precedence; decimal notation is left with the texts whose exponent
has a sign. -/
def read? (s : List Char) : Option Binary64 := (readHex? s).or (readDecimal? s)

end ThreeAddress.Binary64
