import ThreeAddress.Text.Basic

namespace ThreeAddress.Text.Escaped

def ofDigits (a b c : Char) : Char :=
  Char.ofNat (100 * (a.toNat - 48) + 10 * (b.toNat - 48) + (c.toNat - 48))

/-- A backslash with three digits stands for the character with that code. Blanks, `#` and any
other backslash are refused. -/
def decode : List Char → Option (List Char)
  | [] => some []
  | '\\' :: a :: b :: c :: s =>
    if a.isDigit && b.isDigit && c.isDigit then (decode s).map (ofDigits a b c :: ·) else none
  | c :: s => if c = '\\' || c = '#' || isBlank c then none else (decode s).map (c :: ·)

def digit (n : Nat) : Char := Char.ofNat (48 + n % 10)

/-- Backslash, `#`, blanks and control characters are reserved, and written by their code where
three digits can hold it. -/
def encodeChar (c : Char) : List Char :=
  if (c = '#' || c = '\\' || isBlank c || isControl c) && c.toNat < 1000 then
    ['\\', digit (c.toNat / 100), digit (c.toNat / 10), digit c.toNat]
  else [c]

def encode (s : List Char) : List Char := s.flatMap encodeChar

end ThreeAddress.Text.Escaped
