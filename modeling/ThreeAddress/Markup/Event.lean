import ThreeAddress.Markup.Attribute

namespace ThreeAddress.Markup

open Text

/-- The pieces of a document in sequence. An attribute list or a text that is not well-formed is
missing. What follows a piece that is `broken` means nothing. -/
inductive Event
  | opening (name : String) (attributes : Option (List (String × String)))
  | single (name : String) (attributes : Option (List (String × String)))
  | closing (name : String)
  | text (content : Option String)
  | verbatim (content : String)
  | ignored
  | broken
  deriving DecidableEq

/-- The text before the first `>` where `stop` holds of it, and the text after that. -/
def upTo? (stop : List Char → Bool) (seen : List Char) :
    List Char → Option (List Char × List Char)
  | [] => none
  | c :: s =>
    if c == '>' && stop seen.reverse then some (seen.reverse, s) else upTo? stop (c :: seen) s

theorem length_upTo? {stop : List Char → Bool} {seen s a b : List Char}
    (h : upTo? stop seen s = some (a, b)) : b.length < s.length := by
  induction s generalizing seen with
  | nil => cases h
  | cons c s ih =>
    simp only [upTo?] at h
    split at h
    · cases h
      exact Nat.lt_succ_self _
    · exact Nat.lt_succ_of_lt (ih h)

def openQuote (s : List Char) : Option Char :=
  s.foldl (fun q c ↦ match q with
    | none => if c = '"' ∨ c = '\'' then some c else none
    | some d => if c = d then none else some d) none

def startsWith (word s : List Char) : Bool :=
  (s.take word.length).map Char.toUpper == word

def comment (content : List Char) : Event :=
  if startsWith ['!', '-', '-'] content then .ignored else .broken

def characterData (content : List Char) : Event :=
  if startsWith ['!', '[', 'C', 'D', 'A', 'T', 'A', '['] content then
    .verbatim (String.ofList ((content.drop 8).take (content.length - 10)))
  else .broken

def documentType (content : List Char) : Event :=
  if startsWith ['!', 'D', 'O', 'C', 'T', 'Y', 'P', 'E'] content &&
      !(content.drop 8).all isSpace then
    .ignored
  else .broken

def processingInstruction (content : List Char) : Event :=
  if 3 ≤ content.length ∧ content.getLast? = some '?' then .ignored else .broken

/-- Blanks after the name are dropped, but none before it. A name of blanks alone is kept. -/
def closingTag (content : List Char) : Event :=
  let name := content.drop 1
  let trimmed := dropEnd (fun c ↦ isSpace c || c == '\x0c') name
  .closing (String.ofList (if trimmed.isEmpty then name else trimmed))

/-- A tag that ends in a slash has no content. Its name ends at the first blank. -/
def tag (content : List Char) : Event :=
  let single := content.getLast? = some '/'
  let content := if single then content.dropLast else content
  let name := String.ofList (content.takeWhile (!isSpace ·))
  let attributes := attributes? [] (content.dropWhile (!isSpace ·))
  if single then .single name attributes else .opening name attributes

/-- The kinds of markup: where one ends, whether the end of the document may end it too, and what
its content means. -/
structure Kind where
  stop : List Char → Bool
  lenient : Bool
  event : List Char → Event

/-- The kind of the markup that begins with a text, right after its `<`. -/
def kind? : List Char → Option Kind
  | '!' :: '-' :: _ => some ⟨fun s ↦ 5 ≤ s.length && ['-', '-'].isSuffixOf s, false, comment⟩
  | '!' :: '[' :: _ => some ⟨fun s ↦ [']', ']'].isSuffixOf s, false, characterData⟩
  | '!' :: 'D' :: _ | '!' :: 'd' :: _ =>
    some ⟨fun s ↦ s.count '<' == s.count '>', false, documentType⟩
  | '!' :: _ => none
  | '/' :: _ => some ⟨fun _ ↦ true, true, closingTag⟩
  | '?' :: _ => some ⟨fun _ ↦ true, true, processingInstruction⟩
  | _ => some ⟨fun s ↦ (openQuote s).isNone, false, tag⟩

def markup (s : List Char) : Event × List Char :=
  match kind? s with
  | none => (.broken, [])
  | some k =>
    match upTo? k.stop [] s with
    | some (content, r) => (k.event content, r)
    | none => (if k.lenient then k.event s else .broken, [])

theorem length_markup (s : List Char) : (markup s).2.length ≤ s.length := by
  simp only [markup]
  split
  · exact Nat.zero_le _
  · split
    · next h => exact Nat.le_of_lt (length_upTo? h)
    · exact Nat.zero_le _

/-- The pieces of a document. Space at the ends of a text does not belong to it, and a lone `<` at
the end of the document is no piece. -/
def events (s : List Char) : List Event :=
  match _h : s.dropWhile isSpace with
  | [] | ['<'] => []
  | '<' :: t => (markup t).1 :: events (markup t).2
  | c :: t =>
    .text ((unescape? (dropEnd isSpace (c :: t.takeWhile (· != '<')))).map String.ofList) ::
      events (t.dropWhile (· != '<'))
termination_by s.length
decreasing_by
  · have := length_dropWhile isSpace s
    have := length_markup t
    simp_all only [List.length_cons]
    omega
  · have := length_dropWhile isSpace s
    have := length_dropWhile (· != '<') t
    simp_all only [List.length_cons]
    omega

end ThreeAddress.Markup
