import ThreeAddress.Markup.Entity

namespace ThreeAddress.Markup

open Text

def isSpace (c : Char) : Bool := c == ' ' || c == '\t' || c == '\r' || c == '\n'

/-- A key, an equals sign and a quoted value. The first character belongs to the key in any case. -/
def attribute? (first : Char) (s : List Char) : Option ((String × String) × List Char) := do
  let key := first :: s.takeWhile fun c ↦ c != '=' && !isSpace c
  let s := (s.dropWhile fun c ↦ c != '=' && !isSpace c).dropWhile isSpace
  let '=' :: s := s | none
  let quote :: s := s.dropWhile isSpace | none
  if quote ≠ '"' ∧ quote ≠ '\'' then none
  let (value, s) ← cut? quote s
  let value ← unescape? value
  return ((String.ofList key, String.ofList value), s)

theorem length_attribute? {c : Char} {s r : List Char} {a : String × String}
    (h : attribute? c s = some (a, r)) : r.length < s.length := by
  have hk := length_dropWhile (fun c ↦ c != '=' && !isSpace c) s
  have hs := length_dropWhile isSpace (s.dropWhile fun c ↦ c != '=' && !isSpace c)
  simp only [attribute?] at h
  split at h
  · next t ht =>
    have hv := length_dropWhile isSpace t
    split at h
    · next q u hu =>
      split at h
      · cases h
      · simp only [Option.bind_eq_bind, Option.bind_eq_some_iff] at h
        obtain ⟨⟨v, w⟩, hc, x, -, he⟩ := h
        cases he
        have hl := congrArg List.length (cut?_eq_some hc).1
        simp only [ht, hu, List.length_append, List.length_cons] at *
        omega
    · cases h
  · cases h

/-- The attributes of a tag, whose keys must differ from each other and from those in `keys`. -/
def attributes? (keys : List String) (s : List Char) : Option (List (String × String)) :=
  match _h : s.dropWhile isSpace with
  | [] => some []
  | c :: t =>
    match _h' : attribute? c t with
    | some (a, r) =>
      if a.1 ∈ keys then none else (attributes? (a.1 :: keys) r).map (a :: ·)
    | none => none
termination_by s.length
decreasing_by
  have := length_dropWhile isSpace s
  have := length_attribute? _h'
  simp_all only [List.length_cons]
  omega

end ThreeAddress.Markup
