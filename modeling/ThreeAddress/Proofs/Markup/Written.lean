import Mathlib
import ThreeAddress.Proofs.Markup.Entity
import ThreeAddress.Proofs.Markup.Partial

namespace ThreeAddress.Markup

open Text

/-- A word of letters and digits that begins with a letter. -/
structure IsWord (s : List Char) : Prop where
  first : s.head?.any Char.isAlpha = true
  all : s.all Char.isAlphanum = true

/-- The tags of an element can be written. -/
structure HasTag (t : Element) : Prop where
  name : IsWord t.name.toList
  keys : ∀ a ∈ t.attributes, IsWord a.1.toList
  distinct : (t.attributes.map Prod.fst).Nodup

/-- Beyond the tags it matters only that no text begins or ends with space. -/
inductive Writable : Element → Prop
  | mk {t : Element} : HasTag t → Trimmed t.text.toList → (∀ u ∈ t.children, Writable u) →
      Writable t

def IsGap (s : List Char) : Prop := ∀ c ∈ s, isSpace c = true

def writeAttribute (a : String × String) : List Char :=
  ' ' :: a.1.toList ++ '=' :: '"' :: escape a.2.toList ++ ['"']

def writeAttributes (l : List (String × String)) : List Char := l.flatMap writeAttribute

/-- A start tag without its brackets. -/
def startTag (t : Element) : List Char := t.name.toList ++ writeAttributes t.attributes

/-- The ways to write elements in sequence. There may be space behind each tag and each text. -/
inductive Written : List Element → List Char → Prop
  | nil : Written [] []
  | single {t : Element} {l : List Element} {gap x : List Char} : t.text = "" → t.children = [] →
      IsGap gap → Written l x → Written (t :: l) ('<' :: (startTag t ++ ['/']) ++ '>' :: (gap ++ x))
  | paired {t : Element} {l : List Element} {before behind gap inner x : List Char} :
      IsGap before → IsGap behind → IsGap gap → Written t.children inner → Written l x →
      Written (t :: l) ('<' :: startTag t ++ '>' :: (before ++ escape t.text.toList ++ behind ++
        (inner ++ '<' :: ('/' :: t.name.toList) ++ '>' :: (gap ++ x))))

variable {s x gap rest : List Char} {c : Char} {t : Element} {l : List Element}
  {a : String × String} {as : List (String × String)}

theorem isAlphanum_ne (h : c.isAlphanum = true) :
    isSpace c = false ∧ c ∉ ['<', '>', '/', '=', '"', '\'', '\x0c'] := by
  constructor
  · cases hs : isSpace c with
    | false => rfl
    | true =>
      simp only [isSpace, Bool.or_eq_true, beq_iff_eq] at hs
      rcases hs with ((rfl | rfl) | rfl) | rfl <;> cases h
  · intro hc
    simp only [List.mem_cons, List.not_mem_nil, or_false] at hc
    rcases hc with rfl | rfl | rfl | rfl | rfl | rfl | rfl <;> cases h

theorem IsWord.exists_cons (h : IsWord s) : ∃ c r, s = c :: r ∧ c.isAlpha = true := by
  cases s with
  | nil => cases h.first
  | cons c r => exact ⟨c, r, rfl, h.first⟩

theorem IsWord.isAlphanum (h : IsWord s) : ∀ d ∈ s, d.isAlphanum = true := List.all_eq_true.1 h.all

theorem IsWord.not_mem (h : IsWord s) (hc : c ∈ ['<', '>', '/', '=', '"', '\'', '\x0c']) : c ∉ s :=
  fun hm ↦ (isAlphanum_ne (h.isAlphanum c hm)).2 hc

theorem attribute?_write {v : List Char} (h : IsWord (c :: s)) :
    attribute? c (s ++ '=' :: '"' :: escape v ++ '"' :: rest) =
      some ((String.ofList (c :: s), String.ofList v), rest) := by
  have hs : ∀ d ∈ s, (d != '=' && !isSpace d) = true := by
    intro d hd
    have hn := isAlphanum_ne (h.isAlphanum d (List.mem_cons_of_mem c hd))
    simp_all
  have hcut : cut? '"' (escape v ++ '"' :: rest) = some (escape v, rest) :=
    cut?_append (not_mem_escape (by decide) v) rest
  have heq : isSpace '=' = false := rfl
  have hq : isSpace '"' = false := rfl
  simp only [attribute?, List.cons_append, List.append_assoc, List.takeWhile_append_of_pos hs,
    List.dropWhile_append_of_pos hs]
  simp [heq, hq, hcut, unescape?_escape]

theorem attributes?_cons {keys : List String} {t r : List Char}
    (hs : s.dropWhile isSpace = c :: t) (ht : attribute? c t = some (a, r)) (ha : a.1 ∉ keys) :
    attributes? keys s = (attributes? (a.1 :: keys) r).map (a :: ·) := by
  rw [attributes?]
  split
  · next h =>
    rw [hs] at h
    cases h
  · next h =>
    rw [hs] at h
    cases h
    split
    · next h =>
      rw [ht] at h
      cases h
      rw [if_neg ha]
    · next h =>
      rw [ht] at h
      cases h

theorem attributes?_write {keys : List String} (hk : ∀ a ∈ as, IsWord a.1.toList)
    (hd : (as.map Prod.fst).Nodup) (hn : ∀ a ∈ as, a.1 ∉ keys) :
    attributes? keys (writeAttributes as) = some as := by
  induction as generalizing keys with
  | nil =>
    rw [writeAttributes, List.flatMap_nil, attributes?]
    rfl
  | cons a as ih =>
    obtain ⟨key, value⟩ := a
    obtain ⟨hkey, hk⟩ := List.forall_mem_cons.1 hk
    obtain ⟨hnkey, hn⟩ := List.forall_mem_cons.1 hn
    obtain ⟨hdkey, hd⟩ := List.nodup_cons.1 hd
    obtain ⟨c, k, hkl, hc⟩ := hkey.exists_cons
    have hw : writeAttributes ((key, value) :: as) =
        ' ' :: c :: (k ++ '=' :: '"' :: escape value.toList ++ '"' :: writeAttributes as) := by
      simp [writeAttributes, writeAttribute, hkl]
    have hspace : isSpace c = false := (isAlphanum_ne (by simp [Char.isAlphanum, hc])).1
    have hs : (writeAttributes ((key, value) :: as)).dropWhile isSpace =
        c :: (k ++ '=' :: '"' :: escape value.toList ++ '"' :: writeAttributes as) := by
      rw [hw, List.dropWhile_cons_of_pos rfl, List.dropWhile_cons_of_neg (by simp [hspace])]
    have ha : attribute? c (k ++ '=' :: '"' :: escape value.toList ++ '"' :: writeAttributes as) =
        some ((key, value), writeAttributes as) := by
      rw [attribute?_write (hkl ▸ hkey), ← hkl, String.ofList_toList, String.ofList_toList]
    rw [attributes?_cons hs ha hnkey, ih hk hd ?_]
    · rfl
    · intro b hb
      rw [List.mem_cons, not_or]
      have hm : b.1 ∈ as.map Prod.fst := List.mem_map_of_mem hb
      exact ⟨fun he ↦ hdkey (he ▸ hm), hn b hb⟩

theorem openQuote_append {s t : List Char} (h : openQuote s = none) :
    openQuote (s ++ t) = openQuote t := by
  have hs : openQuote (s ++ t) = t.foldl _ (openQuote s) := List.foldl_append
  rw [hs, h]
  rfl

theorem openQuote_of_not_mem (hd : '"' ∉ s) (hs : '\'' ∉ s) : openQuote s = none := by
  induction s with
  | nil => rfl
  | cons c s ih =>
    rw [List.mem_cons, not_or] at hd hs
    have hc : openQuote [c] = none := if_neg (not_or.2 ⟨Ne.symm hd.1, Ne.symm hs.1⟩)
    rw [← List.singleton_append, openQuote_append hc]
    exact ih hd.2 hs.2

theorem openQuote_quoted (h : '"' ∉ s) : openQuote ('"' :: s ++ ['"']) = none := by
  induction s with
  | nil => rfl
  | cons c s ih =>
    rw [List.mem_cons, not_or] at h
    have hc : openQuote ('"' :: c :: s ++ ['"']) = openQuote ('"' :: s ++ ['"']) := by
      simp only [openQuote, List.cons_append, List.foldl_cons, true_or, ↓reduceIte, Ne.symm h.1]
    exact hc.trans (ih h.2)

theorem openQuote_writeAttributes (hk : ∀ a ∈ as, IsWord a.1.toList) :
    openQuote (writeAttributes as) = none := by
  induction as with
  | nil => rfl
  | cons a as ih =>
    obtain ⟨hkey, hk⟩ := List.forall_mem_cons.1 hk
    have hw : writeAttributes (a :: as) = (' ' :: a.1.toList ++ ['=']) ++
        (('"' :: escape a.2.toList ++ ['"']) ++ writeAttributes as) := by
      simp [writeAttributes, writeAttribute]
    have hd : '"' ∉ ' ' :: a.1.toList ++ ['='] := by
      simpa using hkey.not_mem (by decide)
    have hs : '\'' ∉ ' ' :: a.1.toList ++ ['='] := by
      simpa using hkey.not_mem (by decide)
    rw [hw, openQuote_append (openQuote_of_not_mem hd hs),
      openQuote_append (openQuote_quoted (not_mem_escape (by decide) _)), ih hk]

theorem not_mem_writeAttributes (hk : ∀ a ∈ as, IsWord a.1.toList) :
    '>' ∉ writeAttributes as := by
  rw [writeAttributes, List.mem_flatMap]
  rintro ⟨a, ha, hm⟩
  have he : '>' ∉ escape a.2.toList := not_mem_escape (by decide) _
  have hkey : '>' ∉ a.1.toList := (hk a ha).not_mem (by decide)
  simp [writeAttribute, he, hkey] at hm

theorem head?_writeAttributes (h : (writeAttributes as).head? = some c) : isSpace c = true := by
  cases as with
  | nil => cases h
  | cons a as =>
    cases h
    rfl

theorem getLast?_writeAttributes (h : (writeAttributes as).getLast? = some c) : c = '"' := by
  induction as with
  | nil => cases h
  | cons a as ih =>
    have hw : (writeAttribute a).getLast? = some '"' := by
      rw [writeAttribute, List.getLast?_concat]
    rw [writeAttributes, List.flatMap_cons, List.getLast?_append, hw, Option.or_eq_some_iff] at h
    rcases h with h | ⟨-, h⟩
    · exact ih h
    · cases h
      rfl

theorem kind?_startTag (h : IsWord t.name.toList) (rest : List Char) :
    kind? (startTag t ++ rest) = some ⟨fun s ↦ (openQuote s).isNone, false, tag⟩ := by
  obtain ⟨c, s, hn, hc⟩ := h.exists_cons
  rw [startTag, hn, List.cons_append, List.cons_append, kind?.eq_def]
  split <;> simp_all

theorem openQuote_startTag (h : HasTag t) : openQuote (startTag t) = none := by
  rw [startTag, openQuote_append, openQuote_writeAttributes h.keys]
  exact openQuote_of_not_mem (h.name.not_mem (by decide)) (h.name.not_mem (by decide))

theorem not_mem_startTag (h : HasTag t) : '>' ∉ startTag t := by
  rw [startTag, List.mem_append, not_or]
  exact ⟨h.name.not_mem (by decide), not_mem_writeAttributes h.keys⟩

theorem getLast?_startTag (h : HasTag t) : (startTag t).getLast? ≠ some '/' := by
  rw [startTag, List.getLast?_append]
  intro he
  rcases Option.or_eq_some_iff.1 he with he | ⟨-, he⟩
  · cases getLast?_writeAttributes he
  · exact h.name.not_mem (by decide) (List.mem_of_getLast? he)

theorem takeWhile_startTag (h : HasTag t) :
    (startTag t).takeWhile (!isSpace ·) = t.name.toList ∧
      (startTag t).dropWhile (!isSpace ·) = writeAttributes t.attributes := by
  have hn : ∀ c ∈ t.name.toList, (!isSpace c) = true := by
    intro c hc
    rw [(isAlphanum_ne (h.name.isAlphanum c hc)).1]
    rfl
  rw [startTag, List.takeWhile_append_of_pos hn, List.dropWhile_append_of_pos hn]
  cases hw : writeAttributes t.attributes with
  | nil => exact ⟨List.append_nil _, rfl⟩
  | cons c s =>
    have hc : (!isSpace c) = false := by
      rw [head?_writeAttributes (c := c) (by rw [hw]; rfl)]
      rfl
    rw [List.takeWhile_cons, List.dropWhile_cons, hc]
    exact ⟨List.append_nil _, rfl⟩

theorem tag_startTag (h : HasTag t) : tag (startTag t) = .opening t.name (some t.attributes) ∧
    tag (startTag t ++ ['/']) = .single t.name (some t.attributes) := by
  have ha : attributes? [] (writeAttributes t.attributes) = some t.attributes :=
    attributes?_write h.keys h.distinct fun _ _ ↦ List.not_mem_nil
  constructor
  · simp only [tag, getLast?_startTag h, ↓reduceIte, takeWhile_startTag h, ha, String.ofList_toList]
  · simp only [tag, List.getLast?_concat, ↓reduceIte, List.dropLast_concat, takeWhile_startTag h,
      ha, String.ofList_toList]

theorem events_tag (h : HasTag t) (hs : openQuote s = none) (hn : '>' ∉ s) (rest : List Char) :
    events ('<' :: (startTag t ++ s) ++ '>' :: rest) = tag (startTag t ++ s) :: events rest := by
  have hk := kind?_startTag h.name (s ++ '>' :: rest)
  rw [← List.append_assoc] at hk
  have he : (openQuote (startTag t ++ s)).isNone = true := by
    rw [openQuote_append (openQuote_startTag h), hs, Option.isNone_none]
  have hc : '>' ∉ startTag t ++ s := List.not_mem_append (not_mem_startTag h) hn
  exact events_markup hk (.of_not_mem he hc)

theorem closingTag_word (h : IsWord s) : closingTag ('/' :: s) = .closing (String.ofList s) := by
  have hd : dropEnd (fun c ↦ isSpace c || c == '\x0c') s = s := by
    conv => lhs; rw [← List.append_nil s]
    refine dropEnd_append_of_last (fun _ hc ↦ absurd hc List.not_mem_nil) fun c hc ↦ ?_
    have hm : c ∈ s := List.mem_of_getLast? hc
    have hn := isAlphanum_ne (h.isAlphanum c hm)
    simp_all
  have hn : s.isEmpty = false := by
    obtain ⟨c, r, rfl, -⟩ := h.exists_cons
    rfl
  simp only [closingTag, List.drop_succ_cons, List.drop_zero, hd, hn, Bool.false_eq_true,
    ↓reduceIte]

theorem events_endTag (h : IsWord s) (rest : List Char) :
    events ('<' :: ('/' :: s) ++ '>' :: rest) = .closing (String.ofList s) :: events rest := by
  have hc : '>' ∉ '/' :: s := by simpa using h.not_mem (by decide)
  rw [← closingTag_word h]
  exact events_markup rfl (.of_not_mem rfl hc)

theorem events_gap (h : IsGap gap) (rest : List Char) : events (gap ++ rest) = events rest := by
  rw [events_eq, List.dropWhile_append_of_pos h, ← events_eq]

theorem trimmed_escapeChar (h : isSpace c = false) : Trimmed (escapeChar c) := by
  rw [escapeChar]
  split
  · next n hn =>
    constructor
    · intro d hd
      cases hd
      rfl
    · intro d hd
      rw [List.getLast?_concat] at hd
      cases hd
      rfl
  · constructor
    · intro d hd
      cases hd
      exact h
    · intro d hd
      cases hd
      exact h

theorem Trimmed.escape (h : Trimmed s) : Trimmed (escape s) := by
  have hne (c : Char) : escapeChar c ≠ [] := by
    rw [escapeChar]
    split
    · exact List.cons_ne_nil _ _
    · exact List.cons_ne_nil _ _
  constructor
  · intro c hc
    cases s with
    | nil => cases hc
    | cons d s =>
      rw [escape_cons, List.head?_append_of_ne_nil _ (hne d)] at hc
      exact (trimmed_escapeChar (h.first d rfl)).first c hc
  · intro c hc
    obtain rfl | ⟨s, d, rfl⟩ := s.eq_nil_or_concat'
    · cases hc
    · rw [Markup.escape, List.flatMap_append, List.flatMap_singleton,
        List.getLast?_append_of_ne_nil _ (hne d)] at hc
      exact (trimmed_escapeChar (h.last d List.getLast?_concat)).last c hc

theorem decoded?_escape {before behind : List Char} (hb : IsGap before) (ha : IsGap behind)
    (ht : Trimmed s) : decoded? (before ++ escape s ++ behind) = some s := by
  rw [decoded?, strip_append hb ha ht.escape, unescape?_escape]

theorem IsGap.not_mem (h : IsGap gap) : '<' ∉ gap := fun hm ↦ absurd (h _ hm) (by decide)

namespace Written

theorem head? (h : Written l x) (hr : ∀ c, rest.head? = some c → c = '<') :
    ∀ c, (x ++ rest).head? = some c → c = '<' := by
  cases h with
  | nil => exact hr
  | single | paired =>
    intro c hc
    cases hc
    rfl

theorem foldlM_attach {p : Element} {r : List Element} {root : Option Element} :
    l.foldlM Partial.attach ⟨p :: r, root⟩ =
      .ok ⟨{ p with children := p.children ++ l } :: r, root⟩ := by
  induction l generalizing p with
  | nil =>
    rw [List.append_nil]
    cases p
    rfl
  | cons t l ih =>
    have ha : Partial.attach ⟨p :: r, root⟩ t =
        .ok ⟨{ p with children := p.children ++ [t] } :: r, root⟩ := rfl
    rw [List.foldlM_cons, ha, Except.ok_bind, ih, List.append_assoc, List.singleton_append]

/-- An element is opened where it can be attached. -/
theorem accept_opening (d : Partial) (t : Element) :
    d.accept (.opening t.name (some t.attributes)) = .error .secondRoot ∧
        d.attach t = .error .secondRoot ∨
      d.accept (.opening t.name (some t.attributes)) =
        .ok ⟨{ name := t.name, attributes := t.attributes } :: d.opened, d.root⟩ := by
  cases hd : d.opened.isEmpty && d.root.isSome with
  | true =>
    have ho : d.opened = [] := by simp_all
    have hr : d.root.isSome = true := by simp_all
    exact .inl ⟨by simp only [Partial.accept, hd, ↓reduceIte], by simp [Partial.attach, ho, hr]⟩
  | false => exact .inr (by simp [Partial.accept, hd])

/-- Between its tags an element gets its text and its children. -/
theorem foldlM_content {inner close : List Char} {r : List Element} {root : Option Element}
    (hs : decoded? s = some t.text.toList)
    (hi : ∀ d, (events (inner ++ close)).foldlM Partial.accept d =
      t.children.foldlM Partial.attach d >>= fun k ↦ (events close).foldlM Partial.accept k) :
    (characters s ++ events (inner ++ close)).foldlM Partial.accept
        ⟨{ name := t.name, attributes := t.attributes } :: r, root⟩ =
      (events close).foldlM Partial.accept ⟨t :: r, root⟩ := by
  obtain ⟨name, attributes, children, text⟩ := t
  rw [List.foldlM_append, Partial.foldlM_characters hs, Except.ok_bind, hi, foldlM_attach,
    Except.ok_bind, List.nil_append, String.empty_append, String.ofList_toList]

theorem foldlM_single (ht : HasTag t) (htext : t.text = "") (hchildren : t.children = [])
    (hgap : IsGap gap) (d : Partial) :
    (events ('<' :: (startTag t ++ ['/']) ++ '>' :: (gap ++ s))).foldlM Partial.accept d =
      d.attach t >>= fun k ↦ (events s).foldlM Partial.accept k := by
  have ha : d.accept (.single t.name (some t.attributes)) = d.attach t := by
    obtain ⟨name, attributes, children, text⟩ := t
    cases htext
    cases hchildren
    rfl
  rw [events_tag ht rfl (by decide), (tag_startTag ht).2, events_gap hgap, List.foldlM_cons, ha]

theorem foldlM_paired {before behind inner : List Char} (ht : HasTag t)
    (htext : Trimmed t.text.toList) (hbefore : IsGap before) (hbehind : IsGap behind)
    (hgap : IsGap gap) (hinner : Written t.children inner)
    (hi : ∀ rest, (∀ c, rest.head? = some c → c = '<') → ∀ d,
      (events (inner ++ rest)).foldlM Partial.accept d =
        t.children.foldlM Partial.attach d >>= fun k ↦ (events rest).foldlM Partial.accept k)
    (d : Partial) :
    (events ('<' :: startTag t ++ '>' :: (before ++ escape t.text.toList ++ behind ++
        (inner ++ ('<' :: ('/' :: t.name.toList) ++ '>' :: (gap ++ s)))))).foldlM Partial.accept d =
      d.attach t >>= fun k ↦ (events s).foldlM Partial.accept k := by
  have hend : events ('<' :: ('/' :: t.name.toList) ++ '>' :: (gap ++ s)) =
      .closing t.name :: events s := by
    rw [events_endTag ht.name, events_gap hgap, String.ofList_toList]
  have hhead : ∀ c, ('<' :: ('/' :: t.name.toList) ++ '>' :: (gap ++ s)).head? = some c →
      c = '<' := by
    intro c hc
    cases hc
    rfl
  have hchars : '<' ∉ before ++ escape t.text.toList ++ behind := by
    have hm := not_mem_escape (d := '<') (by decide) t.text.toList
    simp [hbefore.not_mem, hbehind.not_mem, hm]
  have htag := events_tag ht (s := []) rfl List.not_mem_nil
  simp only [List.append_nil] at htag
  rw [htag, (tag_startTag ht).1, events_characters hchars (hinner.head? hhead), List.foldlM_cons]
  rcases accept_opening d t with ⟨ho, ha⟩ | ho
  · rw [ho, ha]
    rfl
  · have hc : Partial.accept ⟨t :: d.opened, d.root⟩ (.closing t.name) = d.attach t := if_pos rfl
    rw [ho, Except.ok_bind, foldlM_content (decoded?_escape hbefore hbehind htext) (hi _ hhead),
      hend, List.foldlM_cons, hc]

/-- Reading elements attaches them, wherever they stand. -/
theorem foldlM (h : Written l x) (hl : ∀ t ∈ l, Writable t)
    (hr : ∀ c, rest.head? = some c → c = '<') (d : Partial) :
    (events (x ++ rest)).foldlM Partial.accept d =
      l.foldlM Partial.attach d >>= fun k ↦ (events rest).foldlM Partial.accept k := by
  -- What follows is kept general: for the children of an element it begins with the end tag.
  induction h generalizing d rest with
  | nil => rfl
  | @single t l gap x htext hchildren hgap h ih =>
    obtain ⟨ht, hl⟩ := List.forall_mem_cons.1 hl
    cases ht with
    | mk ht _ _ =>
      have hs := foldlM_single (s := x ++ rest) ht htext hchildren hgap d
      simp only [List.cons_append, List.append_assoc] at hs ⊢
      rw [hs, List.foldlM_cons, bind_assoc]
      exact bind_congr fun k ↦ ih hl hr k
  | @paired t l before behind gap inner x hbefore hbehind hgap hinner h ihinner ih =>
    obtain ⟨ht, hl⟩ := List.forall_mem_cons.1 hl
    cases ht with
    | mk ht htext hchildren =>
      have hs := foldlM_paired (s := x ++ rest) ht htext hbefore hbehind hgap hinner
        (fun _ hr d ↦ ihinner hchildren hr d) d
      simp only [List.cons_append, List.append_assoc] at hs ⊢
      rw [hs, List.foldlM_cons, bind_assoc]
      exact bind_congr fun k ↦ ih hl hr k

theorem exists_written : ∀ l : List Element, ∃ x, Written l x
  | [] => ⟨[], .nil⟩
  | ⟨name, attributes, children, text⟩ :: l => by
    obtain ⟨inner, hinner⟩ := exists_written children
    obtain ⟨x, hx⟩ := exists_written l
    have hgap : IsGap [] := fun _ hc ↦ absurd hc List.not_mem_nil
    exact ⟨_, .paired (t := ⟨name, attributes, children, text⟩) hgap hgap hgap hinner hx⟩

end Written

namespace Element

theorem dropMark_eq_self (h : ∀ c, x.head? = some c → c = '<') : dropMark x = x := by
  rw [dropMark.eq_def]
  split
  · exact absurd (h _ rfl) (by decide)
  · rfl

/-- Every element can be written, and is read back from whatever way it is written in. -/
theorem read_written (ht : Writable t) :
    (∃ x, Written [t] x) ∧ ∀ x, Written [t] x → read (String.ofList x) = .ok t := by
  refine ⟨Written.exists_written [t], fun x h ↦ ?_⟩
  have hr : ∀ c, ([] : List Char).head? = some c → c = '<' := by simp
  have hx : dropMark x = x ++ [] := by
    rw [List.append_nil]
    exact dropMark_eq_self (List.append_nil x ▸ h.head? hr)
  have he : events [] = [] := by
    rw [events_eq]
    rfl
  rw [read_ok, hx, h.foldlM (List.forall_mem_singleton.2 ht) hr, he]
  rfl

def nested : Element where
  name := "a"
  attributes := [("k", "\"<1>&'"), ("l", "")]
  children := [{ name := "b" }, { name := "c1", text := "x < y", children := [{ name := "b" }] }]

theorem writable_nested : Writable nested := by
  have hb : Writable { name := "b" } := by
    refine .mk ⟨⟨by decide, by decide⟩, by simp, by simp⟩ ⟨by simp, by simp⟩ (by simp)
  have hc : Writable { name := "c1", text := "x < y", children := [{ name := "b" }] } := by
    refine .mk ⟨⟨by decide, by decide⟩, by simp, by simp⟩ ⟨?_, ?_⟩ (List.forall_mem_singleton.2 hb)
    · simp [isSpace]
    · simp [isSpace]
  have hk : IsWord "k".toList ∧ IsWord "l".toList := ⟨⟨by decide, by decide⟩, by decide, by decide⟩
  refine .mk ⟨⟨by decide, by decide⟩, ?_, ?_⟩ ⟨by simp [nested], by simp [nested]⟩ ?_
  · simpa [nested] using hk
  · simp [nested]
  · simpa [nested] using ⟨hb, hc⟩

theorem read_written_nested : read ("<a k=\"&quot;&lt;1&gt;&amp;&apos;\" l=\"\">\n <b/>" ++
    " <c1>x &lt; y<b></b></c1>\n</a>") = .ok nested := by
  have hn : IsGap [] := by simp [IsGap]
  have hs : IsGap [' '] := by simp [IsGap, isSpace]
  have hl : IsGap ['\n'] := by simp [IsGap, isSpace]
  have hls : IsGap ['\n', ' '] := by simp [IsGap, isSpace]
  have hb := Written.paired (t := { name := "b" }) hn hn hn .nil .nil
  have hc := Written.paired
    (t := { name := "c1", text := "x < y", children := [{ name := "b" }] }) hn hn hl hb .nil
  have hw := Written.paired (t := nested) hls hn hn (.single rfl rfl hs hc) .nil
  exact (read_written writable_nested).2 _ hw

end Element

end ThreeAddress.Markup
