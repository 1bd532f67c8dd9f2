import ThreeAddress.Proofs.Markup.Pieces

namespace ThreeAddress.Markup.Partial

open Text

/-- How a finished element finds its place. -/
inductive Attaches (e : Element) : Partial → Partial → Prop
  | child {p : Element} {r : List Element} {root : Option Element} :
      Attaches e ⟨p :: r, root⟩ ⟨{ p with children := p.children ++ [e] } :: r, root⟩
  | root : Attaches e ⟨[], none⟩ ⟨[], some e⟩

/-- How a partial document takes in a piece. -/
inductive Takes : Event → Partial → Partial → Prop
  | opening {d : Partial} {name : String} {attributes : List (String × String)} :
      (d.opened = [] → d.root = none) →
      Takes (.opening name (some attributes)) d
        { d with opened := { name, attributes } :: d.opened }
  | single {d d₁ : Partial} {name : String} {attributes : List (String × String)} :
      Attaches { name, attributes } d d₁ → Takes (.single name (some attributes)) d d₁
  | closing {d₁ : Partial} {e : Element} {r : List Element} {root : Option Element} :
      Attaches e ⟨r, root⟩ d₁ → Takes (.closing e.name) ⟨e :: r, root⟩ d₁
  | text {p : Element} {r : List Element} {root : Option Element} {s : String} :
      Takes (.text (some s)) ⟨p :: r, root⟩ ⟨{ p with text := p.text ++ s } :: r, root⟩
  | verbatim {p : Element} {r : List Element} {root : Option Element} {s : String} :
      Takes (.verbatim s) ⟨p :: r, root⟩ ⟨{ p with text := p.text ++ s } :: r, root⟩
  | blank {root : Option Element} {s : String} : s.toList.all isBlank = true →
      Takes (.text (some s)) ⟨[], root⟩ ⟨[], root⟩
  | ignored {d : Partial} : Takes .ignored d d

variable {d d' d₁ d₁' : Partial} {e e' : Element} {x : Event} {es : List Event}

theorem attach_ok : d.attach e = .ok d₁ ↔ Attaches e d d₁ := by
  constructor
  · intro h
    obtain ⟨opened, root⟩ := d
    cases opened with
    | cons p r =>
      cases h
      exact .child
    | nil =>
      cases root with
      | some f => cases h
      | none =>
        cases h
        exact .root
  · intro h
    cases h with
    | child | root => rfl

theorem accept_ok : d.accept x = .ok d₁ ↔ Takes x d d₁ := by
  obtain ⟨opened, root⟩ := d
  constructor
  · intro h
    cases x with
    | opening name attributes =>
      simp only [accept] at h
      split at h
      · cases h
      · next hr =>
        cases attributes with
        | none => cases h
        | some attributes =>
          cases h
          refine .opening fun ho ↦ ?_
          rw [show opened = [] from ho] at hr
          exact Option.not_isSome_iff_eq_none.1 hr
    | single name attributes =>
      cases attributes with
      | none => cases h
      | some attributes => exact .single (attach_ok.1 h)
    | closing name =>
      cases opened with
      | nil => cases h
      | cons e r =>
        simp only [accept] at h
        split at h
        · next hn =>
          subst hn
          exact .closing (attach_ok.1 h)
        · cases h
    | text content =>
      cases content with
      | none => cases h
      | some s =>
        cases opened with
        | nil =>
          simp only [accept, append] at h
          split at h
          · next hb =>
            cases h
            exact .blank hb
          · cases h
        | cons p r =>
          cases h
          exact .text
    | verbatim s =>
      cases opened with
      | nil => cases h
      | cons p r =>
        cases h
        exact .verbatim
    | ignored =>
      cases h
      exact .ignored
    | broken => cases h
  · intro h
    cases h with
    | opening ho =>
      have hn : ¬(opened.isEmpty && root.isSome) = true := by
        simp only [Bool.and_eq_true, List.isEmpty_iff, not_and]
        intro hr
        rw [show root = none from ho hr]
        exact Bool.false_ne_true
      exact if_neg hn
    | single ha => exact attach_ok.2 ha
    | closing ha => exact (if_pos rfl).trans (attach_ok.2 ha)
    | text | verbatim | ignored => rfl
    | blank hb => exact if_pos hb

theorem finish_ok : d.finish = .ok e ↔ d = ⟨[], some e⟩ := by
  obtain ⟨opened, root⟩ := d
  cases opened <;> cases root <;> simp [finish]

theorem foldlM_cons_ok : (x :: es).foldlM accept d = .ok d₁ ↔
    ∃ k, Takes x d k ∧ es.foldlM accept k = .ok d₁ := by
  simp only [List.foldlM_cons, Except.bind_eq_ok, accept_ok]

theorem foldlM_characters {p : Element} {r : List Element} {root : Option Element}
    {s x : List Char} (h : decoded? s = some x) : (characters s).foldlM accept ⟨p :: r, root⟩ =
      .ok ⟨{ p with text := p.text ++ String.ofList x } :: r, root⟩ := by
  rw [characters]
  split
  · next ha =>
    have hs : strip s = [] := strip_eq_nil.2 (List.all_eq_true.1 ha)
    rw [decoded?, hs] at h
    cases h
    rw [String.ofList_nil, String.append_empty]
    cases p
    rfl
  · rw [h]
    rfl

theorem Attaches.injective (h : Attaches e d d₁) (h' : Attaches e' d' d₁') (hd : d₁ = d₁') :
    d = d' ∧ e = e' := by
  cases h with
  | @child p r root =>
    cases h' with
    | @child p' r' root' =>
      obtain ⟨name, attributes, children, text⟩ := p
      obtain ⟨name', attributes', children', text'⟩ := p'
      simp only [mk.injEq, List.cons.injEq, Element.mk.injEq] at hd
      obtain ⟨⟨⟨rfl, rfl, hc, rfl⟩, rfl⟩, rfl⟩ := hd
      obtain ⟨rfl, he⟩ := List.append_inj' hc rfl
      exact ⟨rfl, List.singleton_inj.1 he⟩
    | root => cases hd
  | root =>
    cases h' with
    | child => cases hd
    | root =>
      cases hd
      exact ⟨rfl, rfl⟩

theorem append_text_injective {p p' : Element} {r r' : List Element} {root root' : Option Element}
    {s : String} (h : (⟨{ p with text := p.text ++ s } :: r, root⟩ : Partial) =
      ⟨{ p' with text := p'.text ++ s } :: r', root'⟩) :
    (⟨p :: r, root⟩ : Partial) = ⟨p' :: r', root'⟩ := by
  obtain ⟨name, attributes, children, text⟩ := p
  obtain ⟨name', attributes', children', text'⟩ := p'
  simp only [mk.injEq, List.cons.injEq, Element.mk.injEq, String.append_left_inj] at h
  obtain ⟨⟨⟨rfl, rfl, rfl, rfl⟩, rfl⟩, rfl⟩ := h
  rfl

/-- What has been taken in is not lost: the result determines what there was before. -/
theorem Takes.injective (h : Takes x d d₁) (h' : Takes x d' d₁') (hd : d₁ = d₁') : d = d' := by
  cases h with
  | opening =>
    cases h' with
    | opening =>
      simp only [mk.injEq, List.cons.injEq, true_and] at hd
      exact mk.injEq .. ▸ hd
  | single ha =>
    cases h' with
    | single ha' => exact (ha.injective ha' hd).1
  | closing ha =>
    generalize hn : Event.closing _ = y at h'
    cases h' with
    | closing ha' =>
      obtain ⟨he, hr⟩ := ha.injective ha' hd
      cases he
      rw [hr]
    | _ => cases hn
  | @text p r root s =>
    cases h' with
    | @text p' => exact append_text_injective hd
    | blank => cases hd
  | @verbatim p r root s =>
    cases h' with
    | verbatim => exact append_text_injective hd
  | blank =>
    cases h' with
    | text => cases hd
    | blank => exact hd
  | ignored =>
    cases h' with
    | ignored => exact hd

theorem foldlM_injective (h : es.foldlM accept d = .ok d₁) (h' : es.foldlM accept d' = .ok d₁) :
    d = d' := by
  induction es generalizing d d' with
  | nil =>
    cases h
    cases h'
    rfl
  | cons x es ih =>
    obtain ⟨k, hk, h⟩ := foldlM_cons_ok.1 h
    obtain ⟨k', hk', h'⟩ := foldlM_cons_ok.1 h'
    exact hk.injective hk' (ih h h')

/-- Two partial documents with the same elements open, and a root in both or in none. -/
structure SameShape (d d' : Partial) : Prop where
  opened : d.opened.map Element.name = d'.opened.map Element.name
  root : d.root.isSome = d'.root.isSome

theorem SameShape.nil_iff (h : d.SameShape d') : d.opened = [] ↔ d'.opened = [] := by
  rw [← List.map_eq_nil_iff (f := Element.name), h.opened, List.map_eq_nil_iff]

theorem SameShape.cons {p : Element} {r : List Element} {root : Option Element}
    (h : SameShape ⟨p :: r, root⟩ d') :
    ∃ p' r', d' = ⟨p' :: r', d'.root⟩ ∧ p.name = p'.name ∧
      SameShape ⟨r, root⟩ ⟨r', d'.root⟩ := by
  obtain ⟨opened', root'⟩ := d'
  obtain ⟨p', r', rfl, hn, hr⟩ := List.map_eq_cons_iff.1 h.opened.symm
  exact ⟨p', r', rfl, hn.symm, hr.symm, h.root⟩

theorem SameShape.nil {root : Option Element} (h : SameShape ⟨[], root⟩ d') :
    d' = ⟨[], d'.root⟩ := by
  obtain ⟨opened', root'⟩ := d'
  cases List.map_eq_nil_iff.1 h.opened.symm
  rfl

theorem Attaches.sameShape (h : Attaches e d d₁) (hd : d.SameShape d') (e' : Element) :
    ∃ d₁', Attaches e' d' d₁' ∧ d₁.SameShape d₁' := by
  cases h with
  | child =>
    obtain ⟨p', r', hd', hn, hr⟩ := hd.cons
    rw [hd']
    exact ⟨_, .child, List.cons_eq_cons.2 ⟨hn, hr.opened⟩, hr.root⟩
  | root =>
    have hroot : d'.root = none := by
      rw [← Option.not_isSome_iff_eq_none, ← hd.root]
      exact Bool.false_ne_true
    rw [hd.nil, hroot]
    exact ⟨_, .root, rfl, rfl⟩

/-- Whether a piece can be taken in does not depend on what has been read into the elements. -/
theorem Takes.sameShape (h : Takes x d d₁) (hd : d.SameShape d') :
    ∃ d₁', Takes x d' d₁' ∧ d₁.SameShape d₁' := by
  cases h with
  | opening hroot =>
    refine ⟨_, .opening fun ho ↦ ?_, congrArg (List.cons _) hd.opened, hd.root⟩
    rw [← Option.not_isSome_iff_eq_none, ← hd.root, hroot (hd.nil_iff.2 ho)]
    exact Bool.false_ne_true
  | single ha =>
    obtain ⟨d₁', ha', hs⟩ := ha.sameShape hd _
    exact ⟨d₁', .single ha', hs⟩
  | closing ha =>
    obtain ⟨p', r', hd', hn, hr⟩ := hd.cons
    obtain ⟨d₁', ha', hs⟩ := ha.sameShape hr p'
    rw [hd', hn]
    exact ⟨d₁', .closing ha', hs⟩
  | text =>
    obtain ⟨p', r', hd', hn, hr⟩ := hd.cons
    rw [hd']
    exact ⟨_, .text, List.cons_eq_cons.2 ⟨hn, hr.opened⟩, hr.root⟩
  | verbatim =>
    obtain ⟨p', r', hd', hn, hr⟩ := hd.cons
    rw [hd']
    exact ⟨_, .verbatim, List.cons_eq_cons.2 ⟨hn, hr.opened⟩, hr.root⟩
  | blank hb =>
    rw [hd.nil]
    exact ⟨_, .blank hb, rfl, hd.root⟩
  | ignored => exact ⟨_, .ignored, hd⟩

theorem SameShape.foldlM (h : es.foldlM accept d = .ok d₁) (hd : d.SameShape d') :
    ∃ d₁', es.foldlM accept d' = .ok d₁' ∧ d₁.SameShape d₁' := by
  induction es generalizing d d' with
  | nil =>
    cases h
    exact ⟨d', rfl, hd⟩
  | cons x es ih =>
    obtain ⟨k, hk, h⟩ := foldlM_cons_ok.1 h
    obtain ⟨k', hk', hs⟩ := hk.sameShape hd
    obtain ⟨d₁', h', hs'⟩ := ih h hs
    exact ⟨d₁', foldlM_cons_ok.2 ⟨k', hk', h'⟩, hs'⟩

/-- The text of an open element neither keeps a document from being finished nor is it lost. -/
theorem foldlM_text {p : Element} {r : List Element} {root : Option Element} {s : String}
    (h : es.foldlM accept ⟨{ p with text := s } :: r, root⟩ = .ok ⟨[], some e⟩) (s' : String) :
    ∃ e', es.foldlM accept ⟨{ p with text := s' } :: r, root⟩ = .ok ⟨[], some e'⟩ ∧
      (e' = e ↔ s' = s) := by
  have hs : SameShape ⟨{ p with text := s } :: r, root⟩ ⟨{ p with text := s' } :: r, root⟩ :=
    ⟨rfl, rfl⟩
  obtain ⟨d', h', hd'⟩ := hs.foldlM h
  obtain ⟨e', he'⟩ := Option.isSome_iff_exists.1 hd'.root.symm
  rw [hd'.nil, he'] at h'
  refine ⟨e', h', ?_⟩
  constructor
  · rintro rfl
    have hd := foldlM_injective h h'
    simp only [mk.injEq, List.cons.injEq, Element.mk.injEq] at hd
    exact hd.1.1.2.2.2.symm
  · rintro rfl
    rw [h] at h'
    cases h'
    rfl

end ThreeAddress.Markup.Partial

namespace ThreeAddress.Markup

theorem Element.read_ok {s : List Char} {e : Element} : read (String.ofList s) = .ok e ↔
    (events (dropMark s)).foldlM Partial.accept {} = .ok ⟨[], some e⟩ := by
  rw [read, ofEvents, String.toList_ofList, Except.bind_eq_ok]
  simp only [Partial.finish_ok, exists_eq_right]

end ThreeAddress.Markup
