import ThreeAddress.Text.Numeral

namespace ThreeAddress.Markup

open Text

/-- The character with a code, but for the code zero. -/
def ofCode? (n : Nat) : Option Char :=
  if n ≠ 0 ∧ n.isValidChar then some (Char.ofNat n) else none

/-- The character that stands for an entity: the five predefined ones, and codes in at most seven
decimal or six hexadecimal digits. -/
def entity? (name : List Char) : Option Char :=
  match name with
  | ['l', 't'] => some '<'
  | ['g', 't'] => some '>'
  | ['a', 'm', 'p'] => some '&'
  | ['a', 'p', 'o', 's'] => some '\''
  | ['q', 'u', 'o', 't'] => some '"'
  | '#' :: 'x' :: s => if s.length ≤ 6 then (Numeral.hexadecimal? s).bind ofCode? else none
  | '#' :: s => if s.length ≤ 7 then (Numeral.natural? s).bind ofCode? else none
  | _ => none

/-- The text with its entities replaced. `name` is what has been read of the name of an entity, last
character first; within a name there is no other ampersand. -/
def unescapeFrom? (name : Option (List Char)) : List Char → Option (List Char)
  | [] => if name.isNone then some [] else none
  | c :: s =>
    match name with
    | none =>
      if c = '&' then unescapeFrom? (some []) s else (unescapeFrom? none s).map (c :: ·)
    | some name =>
      if c = ';' then do
        let d ← entity? name.reverse
        let t ← unescapeFrom? none s
        return d :: t
      else if c = '&' then none
      else unescapeFrom? (some (c :: name)) s

def unescape? (s : List Char) : Option (List Char) := unescapeFrom? none s

end ThreeAddress.Markup
