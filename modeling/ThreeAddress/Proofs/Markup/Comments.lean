import Mathlib
import ThreeAddress.Proofs.Markup.Entity
import ThreeAddress.Proofs.Markup.Partial
import ThreeAddress.Proofs.Markup.Pieces

namespace ThreeAddress.Markup

open Text

variable {left right s x : List Char} {d : Partial}

/-- There is more than space on both sides of a place, and space next to it. -/
structure SplitsAtSpace (left right : List Char) : Prop where
  before : ∃ c ∈ left, isSpace c = false
  behind : ∃ c ∈ right, isSpace c = false
  space : left.getLast?.any isSpace = true ∨ right.head?.any isSpace = true

theorem strip_ne_nil : strip s ≠ [] ↔ ∃ c ∈ s, isSpace c = false := by
  rw [Ne, strip_eq_nil]
  simp

theorem any_getLast?_append {core after : List Char}
    (hc : ∀ c, core.getLast? = some c → isSpace c = false) (ha : ∀ c ∈ after, isSpace c = true) :
    (core ++ after).getLast?.any isSpace = true ↔ after ≠ [] := by
  rw [List.getLast?_append]
  cases hl : after.getLast? with
  | none =>
    rw [Option.none_or, List.getLast?_eq_none_iff.1 hl]
    cases hl' : core.getLast? with
    | none => simp
    | some c => simp [hc c hl']
  | some c =>
    have hn : after ≠ [] := by
      intro hn
      rw [hn] at hl
      cases hl
    simp [hn, ha c (List.mem_of_getLast? hl)]

theorem any_head?_append {before core : List Char}
    (hc : ∀ c, core.head? = some c → isSpace c = false) (hb : ∀ c ∈ before, isSpace c = true) :
    (before ++ core).head?.any isSpace = true ↔ before ≠ [] := by
  cases before with
  | nil =>
    rw [List.nil_append]
    cases hl : core.head? with
    | none => simp
    | some c => simp [hc c hl]
  | cons c before => simp [hb c List.mem_cons_self]

theorem Trimmed.append {s t : List Char} (hs : Trimmed s) (ht : Trimmed t) (hsn : s ≠ [])
    (htn : t ≠ []) (space : List Char) : Trimmed (s ++ (space ++ t)) where
  first c h := by
    rw [List.head?_append_of_ne_nil s hsn] at h
    exact hs.first c h
  last c h := by
    rw [← List.append_assoc, List.getLast?_append_of_ne_nil _ htn] at h
    exact ht.last c h

theorem strip_append_of_left (h : strip left = []) (right : List Char) :
    strip (left ++ right) = strip right := by
  obtain ⟨b, a, hr, hb, ha⟩ := exists_strip right
  have hs : left ++ right = (left ++ b) ++ strip right ++ a := by
    rw [List.append_assoc, List.append_assoc, ← List.append_assoc b, ← hr]
  rw [hs]
  apply strip_append _ ha (trimmed_strip right)
  exact List.forall_mem_append.2 ⟨strip_eq_nil.1 h, hb⟩

theorem strip_append_of_right (h : strip right = []) (left : List Char) :
    strip (left ++ right) = strip left := by
  obtain ⟨b, a, hl, hb, ha⟩ := exists_strip left
  have hs : left ++ right = b ++ strip left ++ (a ++ right) := by
    rw [← List.append_assoc, ← hl]
  rw [hs]
  apply strip_append hb _ (trimmed_strip left)
  exact List.forall_mem_append.2 ⟨ha, strip_eq_nil.1 h⟩

/-- When a text is split, and its parts are stripped, the space at the split is lost. -/
theorem exists_strip_append (left right : List Char) :
    ∃ space, (∀ c ∈ space, isSpace c = true) ∧
      strip (left ++ right) = strip left ++ (space ++ strip right) ∧
      (space = [] ↔ ¬SplitsAtSpace left right) := by
  by_cases hln : strip left = []
  · refine ⟨[], List.forall_mem_nil _, ?_, iff_of_true rfl fun h ↦ strip_ne_nil.2 h.before hln⟩
    rw [strip_append_of_left hln, hln, List.nil_append, List.nil_append]
  by_cases hrn : strip right = []
  · refine ⟨[], List.forall_mem_nil _, ?_, iff_of_true rfl fun h ↦ strip_ne_nil.2 h.behind hrn⟩
    rw [strip_append_of_right hrn, hrn, List.append_nil, List.append_nil]
  -- Both parts have a core; what is lost is the space behind the first and before the second.
  obtain ⟨b, a, hl, hb, ha⟩ := exists_strip left
  obtain ⟨b', a', hr, hb', ha'⟩ := exists_strip right
  have hs : left ++ right = b ++ (strip left ++ (a ++ b' ++ strip right)) ++ a' :=
    calc left ++ right = b ++ strip left ++ a ++ (b' ++ strip right ++ a') := by rw [← hl, ← hr]
      _ = b ++ (strip left ++ (a ++ b' ++ strip right)) ++ a' := by
        simp only [List.append_assoc]
  have ht := (trimmed_strip left).append (trimmed_strip right) hln hrn (a ++ b')
  have hleft : left.getLast?.any isSpace = true ↔ a ≠ [] := by
    rw [hl]
    apply any_getLast?_append _ ha
    intro c h
    rw [List.getLast?_append_of_ne_nil b hln] at h
    exact (trimmed_strip left).last c h
  have hright : right.head?.any isSpace = true ↔ b' ≠ [] := by
    rw [hr, List.append_assoc]
    apply any_head?_append _ hb'
    intro c h
    rw [List.head?_append_of_ne_nil _ hrn] at h
    exact (trimmed_strip right).first c h
  refine ⟨a ++ b', List.forall_mem_append.2 ⟨ha, hb'⟩, by rw [hs, strip_append hb ha' ht], ?_⟩
  constructor
  · intro hn h
    rw [List.append_eq_nil_iff] at hn
    rcases h.space with h | h
    · exact hleft.1 h hn.1
    · exact hright.1 h hn.2
  · intro h
    by_contra hn
    rw [List.append_eq_nil_iff, not_and_or] at hn
    exact h ⟨strip_ne_nil.1 hln, strip_ne_nil.1 hrn, hn.imp hleft.2 hright.2⟩

theorem closed_strip (h : Closed left) : Closed (strip left) := by
  obtain ⟨b, a, hl, -, ha⟩ := exists_strip left
  intro before after hs
  have hl' : left = (b ++ before) ++ '&' :: (after ++ a) := by
    rw [hl, hs]
    simp only [List.append_assoc, List.cons_append]
  rcases List.mem_append.1 (h _ _ hl') with hm | hm
  · exact hm
  · exact absurd (ha _ hm) (by decide)

/-- Decoding the parts of a text gives the parts of the text, if no space is lost. -/
theorem decoded?_append (hc : Closed left) (h : decoded? (left ++ right) = some s) :
    ∃ x y, decoded? left = some x ∧ decoded? right = some y ∧
      (x ++ y = s ↔ ¬SplitsAtSpace left right) := by
  obtain ⟨space, hspace, hs, hsplits⟩ := exists_strip_append left right
  have hamp : '&' ∉ space := fun hm ↦ absurd (hspace _ hm) (by decide)
  rw [decoded?, hs, unescape?_append (closed_strip hc), Option.bind_eq_some_iff] at h
  obtain ⟨x, hx, h⟩ := h
  rw [unescape?_append (.of_not_mem hamp), unescape?_eq_self hamp, Option.bind_some,
    Option.map_map, Option.map_eq_some_iff] at h
  obtain ⟨y, hy, rfl⟩ := h
  refine ⟨x, y, hx, hy, ?_⟩
  rw [← hsplits, Function.comp_apply, List.append_right_inj]
  constructor
  · intro he
    exact List.self_eq_append_left.1 he
  · rintro rfl
    rfl

theorem exists_decoded {d₁ : Partial} (h : (characters s).foldlM Partial.accept d = .ok d₁) :
    ∃ x, decoded? s = some x := by
  rw [characters] at h
  split at h
  · next ha => exact ⟨[], congrArg unescape? (strip_eq_nil.2 (List.all_eq_true.1 ha))⟩
  · cases hs : decoded? s with
    | none =>
      rw [hs] at h
      cases h
    | some x => exact ⟨x, rfl⟩

namespace Element

theorem dropMark_append (h : left ≠ []) (right : List Char) :
    dropMark (left ++ right) = dropMark left ++ right := by
  cases left with
  | nil => exact absurd rfl h
  | cons c left =>
    rw [List.cons_append, dropMark.eq_def, dropMark.eq_def]
    split <;> simp_all

def commentOf (c : List Char) : List Char := ['<', '!', '-', '-'] ++ c ++ ['-', '-', '>']

theorem events_commentOf {c : List Char} (h : '>' ∉ c) (rest : List Char) :
    events (commentOf c ++ rest) = .ignored :: events rest := by
  have hs : commentOf c ++ rest =
      '<' :: ('!' :: '-' :: '-' :: (c ++ ['-', '-'])) ++ '>' :: rest := by
    simp [commentOf]
  have he : (['-', '-'] : List Char).isSuffixOf ('!' :: '-' :: '-' :: (c ++ ['-', '-'])) = true :=
    List.isSuffixOf_iff_suffix.2 ⟨'!' :: '-' :: '-' :: c, rfl⟩
  rw [hs, events_markup rfl (.of_not_mem ?_ ?_)]
  · rfl
  · simp only [he, Bool.and_true, List.length_cons, List.length_append, decide_eq_true_eq]
    omega
  · simpa using h

/-- A place in the characters of an open element: `before` goes up to the end of the last piece of
markup, and the characters from there to the next one are divided between two entities. -/
structure Place (before left right after : List Char) : Prop where
  inside : ∃ es d, Spans (dropMark before) es ∧ es.foldlM Partial.accept {} = .ok d ∧ d.opened ≠ []
  fore : '<' ∉ left
  aft : '<' ∉ right
  next : ∀ c, after.head? = some c → c = '<'
  closed : Closed left

theorem Place.ne_nil {before left right after : List Char} (h : Place before left right after) :
    before ≠ [] := by
  rintro rfl
  obtain ⟨es, d, hs, hd, ho⟩ := h.inside
  generalize hn : dropMark [] = s at hs
  cases hs with
  | nil =>
    cases hd
    exact ho rfl
  | markup => simp [dropMark] at hn

/-- A comment in an element is ignored, but the space next to it is not read unless the comment
stands at an end of the characters. -/
theorem comment_transparent {before left right after c : List Char} {e : Element}
    (hp : Place before left right after) (hc : '>' ∉ c)
    (h : read (String.ofList (before ++ (left ++ right ++ after))) = .ok e) :
    ∃ e', read (String.ofList (before ++ (left ++ commentOf c ++ right ++ after))) = .ok e' ∧
      (e' = e ↔ ¬SplitsAtSpace left right) := by
  obtain ⟨es, ⟨opened, root⟩, hs, hd, ho⟩ := hp.inside
  obtain ⟨p, r, rfl⟩ := List.exists_cons_of_ne_nil ho
  have hlr : '<' ∉ left ++ right := by simp [hp.fore, hp.aft]
  have hev : events (dropMark (before ++ (left ++ right ++ after))) =
      es ++ (characters (left ++ right) ++ events after) := by
    rw [dropMark_append hp.ne_nil, hs.events, events_characters hlr hp.next]
  have hev' : events (dropMark (before ++ (left ++ commentOf c ++ right ++ after))) =
      es ++ (characters left ++ .ignored :: (characters right ++ events after)) := by
    rw [dropMark_append hp.ne_nil, hs.events, List.append_assoc, List.append_assoc,
      events_characters hp.fore (by simp [commentOf]), events_commentOf hc,
      events_characters hp.aft hp.next]
  simp only [read_ok, hev, hev', List.foldlM_append, List.foldlM_cons, hd, Except.ok_bind] at h ⊢
  obtain ⟨z, hz⟩ : ∃ z, decoded? (left ++ right) = some z := by
    obtain ⟨d₁, h₁, -⟩ := Except.bind_eq_ok.1 h
    exact exists_decoded h₁
  obtain ⟨x, y, hx, hy, hxy⟩ := decoded?_append hp.closed hz
  have hi (d : Partial) : d.accept .ignored = .ok d := rfl
  rw [Partial.foldlM_characters hz, Except.ok_bind] at h
  rw [Partial.foldlM_characters hx, Except.ok_bind, hi, Except.ok_bind,
    Partial.foldlM_characters hy, Except.ok_bind, String.append_assoc, ← String.ofList_append]
  obtain ⟨e', h', he'⟩ := Partial.foldlM_text h (p.text ++ String.ofList (x ++ y))
  refine ⟨e', h', he'.trans ?_⟩
  rw [String.append_right_inj, String.ofList_inj, hxy]

theorem place_in_root : Place "<a>".toList "x ".toList "&lt; y".toList "</a>".toList where
  inside := by
    have hs : Spans "<a>".toList [tag ['a']] :=
      @Spans.markup [] ['a'] [] _ [] List.not_mem_nil (fun _ ↦ rfl) (.of_not_mem rfl (by decide))
        .nil
    exact ⟨_, ⟨[{ name := "a" }], none⟩, hs, by cbv, List.cons_ne_nil _ _⟩
  fore := by decide
  aft := by decide
  next := by simp
  closed := .of_not_mem (by decide)

theorem comment_transparent_between_words :
    ∃ e, read "<a>x <!-- - --->&lt; y</a>" = .ok e ∧ e ≠ { name := "a", text := "x < y" } := by
  have hr : read "<a>x &lt; y</a>" = .ok { name := "a", text := "x < y" } := by cbv
  obtain ⟨e, he, hn⟩ := comment_transparent place_in_root (c := " - -".toList) (by decide) hr
  exact ⟨e, he, fun h ↦ hn.1 h ⟨⟨'x', by decide⟩, ⟨'y', by decide⟩, .inl rfl⟩⟩

/-- Between two words a comment takes away the space in front of it. -/
theorem comment_transparent_fails :
    ¬ ∀ (before left right after c : List Char) (e : Element), Place before left right after →
      c ≠ [] → '-' ∉ c → '>' ∉ c →
      read (String.ofList (before ++ (left ++ right ++ after))) = .ok e →
      read (String.ofList (before ++ (left ++ commentOf c ++ right ++ after))) = .ok e := by
  intro h
  have hr : read "<a>x &lt; y</a>" = .ok { name := "a", text := "x < y" } := by cbv
  have hc : read "<a>x <!--c-->&lt; y</a>" = .ok { name := "a", text := "x< y" } := by cbv
  have he := h _ _ _ _ ['c'] _ place_in_root (by decide) (by decide) (by decide) hr
  exact absurd (hc.symm.trans he) (by simp)

end Element

end ThreeAddress.Markup
