import ThreeAddress.Markup.Element
import ThreeAddress.Proofs.Except
import ThreeAddress.Proofs.Text

namespace ThreeAddress.Markup

open Text

variable {s t text content rest : List Char} {stop : List Char → Bool} {c : Char} {k : Kind}
  {es fs : List Event}

/-- A piece of markup ends behind `content`, and at no `>` within it. -/
structure Ends (stop : List Char → Bool) (content : List Char) : Prop where
  last : stop content = true
  first : ∀ before after, content = before ++ '>' :: after → stop before = false

theorem Ends.of_not_mem (hs : stop content = true) (hc : '>' ∉ content) : Ends stop content where
  last := hs
  first before _ h := absurd (h ▸ List.mem_append_right before List.mem_cons_self) hc

theorem upTo?_append {seen : List Char} (hs : stop (seen.reverse ++ content) = true)
    (hf : ∀ before after, content = before ++ '>' :: after →
      stop (seen.reverse ++ before) = false) :
    upTo? stop seen (content ++ '>' :: rest) = some (seen.reverse ++ content, rest) := by
  induction content generalizing seen with
  | nil =>
    rw [List.append_nil] at hs
    simp only [List.nil_append, upTo?, BEq.rfl, hs, Bool.and_self, ↓reduceIte, List.append_nil]
  | cons c content ih =>
    have hc : (c == '>' && stop seen.reverse) = false := by
      by_cases hc : c = '>'
      · have hn := hf [] content (by rw [hc, List.nil_append])
        rw [List.append_nil] at hn
        rw [hn, Bool.and_false]
      · rw [beq_false_of_ne hc, Bool.false_and]
    have hr (l : List Char) : (c :: seen).reverse ++ l = seen.reverse ++ c :: l := by
      rw [List.reverse_cons, List.append_assoc, List.singleton_append]
    rw [List.cons_append, upTo?, hc, if_neg Bool.false_ne_true, ih, hr]
    · rwa [hr]
    · intro before after h
      rw [hr]
      exact hf (c :: before) after (by rw [h, List.cons_append])

theorem markup_append (hk : kind? (content ++ '>' :: rest) = some k) (he : Ends k.stop content) :
    markup (content ++ '>' :: rest) = (k.event content, rest) := by
  have hu : upTo? k.stop [] (content ++ '>' :: rest) = some (content, rest) :=
    @upTo?_append content rest k.stop [] he.last he.first
  simp only [markup, hk, hu]

/-- The pieces of a document that does not begin with space. -/
def pieces : List Char → List Event
  | [] | ['<'] => []
  | '<' :: t => (markup t).1 :: events (markup t).2
  | c :: t =>
    .text ((unescape? (dropEnd isSpace (c :: t.takeWhile (· != '<')))).map String.ofList) ::
      events (t.dropWhile (· != '<'))

theorem pieces_markup (h : t ≠ []) :
    pieces ('<' :: t) = (markup t).1 :: events (markup t).2 := by
  rw [pieces]
  exact h

theorem pieces_text (h : c ≠ '<') :
    pieces (c :: t) =
      .text ((unescape? (dropEnd isSpace (c :: t.takeWhile (· != '<')))).map String.ofList) ::
        events (t.dropWhile (· != '<')) := by
  rw [pieces]
  · exact fun hc _ ↦ h hc
  · exact h

theorem events_eq (s : List Char) : events s = pieces (s.dropWhile isSpace) := by
  rw [events]
  split
  · next h => rw [h, pieces]
  · next h => rw [h, pieces]
  · next ht h => rw [h, pieces_markup ht]
  · next hc h => rw [h, pieces_text hc]

theorem events_markup (hk : kind? (content ++ '>' :: rest) = some k) (he : Ends k.stop content) :
    events ('<' :: content ++ '>' :: rest) = k.event content :: events rest := by
  have hn : content ++ '>' :: rest ≠ [] :=
    List.append_ne_nil_of_right_ne_nil content (List.cons_ne_nil _ _)
  have hs : isSpace '<' = false := rfl
  rw [events_eq, List.cons_append, List.dropWhile_cons, hs, if_neg Bool.false_ne_true,
    pieces_markup hn, markup_append hk he]

/-- A text without the space at its ends. -/
def strip (s : List Char) : List Char := dropEnd isSpace (s.dropWhile isSpace)

/-- There is no space at the ends of a text. -/
structure Trimmed (s : List Char) : Prop where
  first : ∀ c, s.head? = some c → isSpace c = false
  last : ∀ c, s.getLast? = some c → isSpace c = false

theorem strip_append {before core after : List Char} (hb : ∀ c ∈ before, isSpace c = true)
    (ha : ∀ c ∈ after, isSpace c = true) (hc : Trimmed core) :
    strip (before ++ core ++ after) = core := by
  cases core with
  | nil =>
    have hs : ∀ c ∈ before ++ [] ++ after, isSpace c = true := by
      simpa only [List.append_nil, List.forall_mem_append] using ⟨hb, ha⟩
    rw [strip, List.dropWhile_eq_nil_iff.2 hs]
    rfl
  | cons c core =>
    rw [strip, List.append_assoc, dropWhile_append_of_head hb]
    · exact dropEnd_append_of_last ha hc.last
    · exact hc.first

theorem trimmed_strip (s : List Char) : Trimmed (strip s) where
  first c h := by
    obtain ⟨after, hd, -⟩ := exists_dropEnd isSpace (s.dropWhile isSpace)
    have hc : (s.dropWhile isSpace).head? = some c := by
      rw [hd, List.head?_append, ← strip, h, Option.some_or]
    have hn := List.head?_dropWhile_not isSpace s
    rwa [hc] at hn
  last c h := by
    rw [strip, dropEnd, List.getLast?_reverse] at h
    have hn := List.head?_dropWhile_not isSpace (s.dropWhile isSpace).reverse
    rwa [h] at hn

theorem exists_strip (s : List Char) :
    ∃ before after, s = before ++ strip s ++ after ∧ (∀ c ∈ before, isSpace c = true) ∧
      ∀ c ∈ after, isSpace c = true := exists_ends isSpace s

theorem strip_eq_nil : strip s = [] ↔ ∀ c ∈ s, isSpace c = true := by
  constructor
  · intro h
    obtain ⟨before, after, hs, hb, ha⟩ := exists_strip s
    rw [h, List.append_nil] at hs
    rw [hs, List.forall_mem_append]
    exact ⟨hb, ha⟩
  · intro h
    rw [strip, List.dropWhile_eq_nil_iff.2 h]
    rfl

/-- What the characters between two pieces of markup stand for, if they are well-formed. -/
def decoded? (s : List Char) : Option (List Char) := unescape? (strip s)

/-- The pieces that the characters between two pieces of markup make. -/
def characters (s : List Char) : List Event :=
  if s.all isSpace then [] else [.text ((decoded? s).map String.ofList)]

theorem events_characters (ht : '<' ∉ text) (hr : ∀ c, rest.head? = some c → c = '<') :
    events (text ++ rest) = characters text ++ events rest := by
  rw [events_eq, List.dropWhile_append]
  cases hd : text.dropWhile isSpace with
  | nil =>
    have ha : text.all isSpace = true := List.all_eq_true.2 (List.dropWhile_eq_nil_iff.1 hd)
    rw [characters, ha, if_pos rfl, events_eq rest]
    rfl
  | cons c core =>
    have hmem : ∀ d ∈ c :: core, d ∈ text := fun d h ↦ (List.dropWhile_sublist _).mem (hd ▸ h)
    have hc : c ≠ '<' := fun h ↦ ht (h ▸ hmem c List.mem_cons_self)
    have hcore : ∀ d ∈ core, (d != '<') = true := fun d h ↦
      bne_iff_ne.2 fun he ↦ ht (he ▸ hmem d (List.mem_cons_of_mem _ h))
    have ha : text.all isSpace = false := by
      rw [← Bool.not_eq_true, List.all_eq_true, ← List.dropWhile_eq_nil_iff, hd]
      exact List.cons_ne_nil c core
    have hrest : rest.takeWhile (· != '<') = [] ∧ rest.dropWhile (· != '<') = rest := by
      cases rest with
      | nil => exact ⟨rfl, rfl⟩
      | cons d rest =>
        cases hr d rfl
        exact ⟨rfl, rfl⟩
    simp only [List.isEmpty_cons, Bool.false_eq_true, ↓reduceIte, List.cons_append]
    rw [pieces_text hc, List.takeWhile_append_of_pos hcore, List.dropWhile_append_of_pos hcore,
      hrest.1, hrest.2, List.append_nil, characters, ha, decoded?, strip, hd]
    rfl

/-- A part of a document that ends with a piece of markup, unless it is empty, and its pieces. -/
inductive Spans : List Char → List Event → Prop
  | nil : Spans [] []
  | markup {text content rest : List Char} {k : Kind} {es : List Event} : '<' ∉ text →
      (∀ after, kind? (content ++ '>' :: after) = some k) → Ends k.stop content → Spans rest es →
      Spans (text ++ '<' :: content ++ '>' :: rest) (characters text ++ k.event content :: es)

theorem Spans.events (h : Spans s es) (rest : List Char) :
    Markup.events (s ++ rest) = es ++ Markup.events rest := by
  induction h with
  | nil => rfl
  | @markup text content rest' k es ht hk he _ ih =>
    have hm := events_markup (hk (rest' ++ rest)) he
    rw [List.append_assoc, List.append_assoc, List.cons_append, List.append_assoc, List.cons_append,
      events_characters ht (by simp)]
    simp only [List.cons_append] at *
    rw [hm, ih]

end ThreeAddress.Markup
