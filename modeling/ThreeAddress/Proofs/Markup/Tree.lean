import Mathlib.Data.List.Induction
import ThreeAddress.Proofs.Markup.Partial

namespace ThreeAddress.Markup

open Text

namespace Event

/-- The attributes and entities are well-formed. -/
def Valid : Event → Prop
  | opening _ attributes | single _ attributes => attributes.isSome
  | text content => content.isSome
  | broken => False
  | _ => True

/-- An element begins. -/
def starts : Event → Bool
  | opening _ _ | single _ _ => true
  | _ => false

/-- The names of the elements that are open after a piece, innermost first. A closing tag that does
not close the innermost one leads nowhere. -/
def nest? (names : List String) : Event → Option (List String)
  | opening name _ => some (name :: names)
  | closing name => if names.head? = some name then some names.tail else none
  | _ => some names

end Event

def nesting? (es : List Event) : Option (List String) := es.foldlM Event.nest? []

/-- No element is open before the piece at `k`. -/
def Outside (es : List Event) (k : Nat) : Prop := nesting? (es.take k) = some []

def TopLevel (es : List Event) (k : Nat) : Prop :=
  Outside es k ∧ ∃ x, es[k]? = some x ∧ x.starts = true

/-- One element with everything else in it, but for blanks and what is ignored. -/
structure IsDocument (es : List Event) : Prop where
  one : ∃! k, TopLevel es k
  closed : nesting? es = some []
  verbatim : ∀ k s, Outside es k → es[k]? ≠ some (.verbatim s)
  blank : ∀ k s, Outside es k → es[k]? = some (.text (some s)) → s.toList.all isBlank = true

/-- The elements and the text that pieces come to within an element. -/
inductive Contents : List Event → List Element → String → Prop
  | nil : Contents [] [] ""
  | ignored {es : List Event} {l : List Element} {s : String} : Contents es l s →
      Contents (es ++ [.ignored]) l s
  | text {es : List Event} {l : List Element} {s s' : String} : Contents es l s →
      Contents (es ++ [.text (some s')]) l (s ++ s')
  | verbatim {es : List Event} {l : List Element} {s s' : String} : Contents es l s →
      Contents (es ++ [.verbatim s']) l (s ++ s')
  | single {es : List Event} {l : List Element} {s name : String}
      {attributes : List (String × String)} {e : Element} : e = { name, attributes } →
      Contents es l s → Contents (es ++ [.single name (some attributes)]) (l ++ [e]) s
  | paired {es inner : List Event} {l : List Element} {s : String} {e : Element} :
      Contents es l s → Contents inner e.children e.text →
      Contents (es ++ (.opening e.name (some e.attributes) :: inner ++ [.closing e.name]))
        (l ++ [e]) s

/-- What cannot stand outside of the root, by what has come `before`. -/
inductive Offends (before : List Event) : Event → Malformed → Prop
  | secondRoot {x y : Event} : y ∈ before → y.starts = true → x.starts = true →
      Offends before x .secondRoot
  | text {s : String} : s.toList.all isBlank = false → Offends before (.text (some s)) .textOutside
  | verbatim {s : String} : Offends before (.verbatim s) .verbatimOutside

def OffendsAt (es : List Event) (k : Nat) (reason : Malformed) : Prop :=
  Outside es k ∧ ∃ x, es[k]? = some x ∧ Offends (es.take k) x reason

/-- What is wrong with the pieces: the first one that offends, and only if none does, that an
element is not closed or that there is none. -/
inductive Flaw (es : List Event) : Malformed → Prop
  | piece {k : Nat} {reason : Malformed} : OffendsAt es k reason →
      (∀ j < k, ∀ reason', ¬ OffendsAt es j reason') → Flaw es reason
  | unclosed {name : String} {names : List String} : (∀ k reason, ¬ OffendsAt es k reason) →
      nesting? es = some (name :: names) → Flaw es (.unclosed name)
  | noRoot : (∀ k reason, ¬ OffendsAt es k reason) → nesting? es = some [] →
      (∀ x ∈ es, x.starts = false) → Flaw es .noRoot

/-- How far the elements are that the pieces so far belong to. -/
inductive Built : List Event → Partial → Prop
  | before {es : List Event} {s : String} : Contents es [] s → Built es ⟨[], none⟩
  | inside {es inner : List Event} {opened : List Element} {e : Element} :
      Built es ⟨opened, none⟩ → Contents inner e.children e.text →
      Built (es ++ .opening e.name (some e.attributes) :: inner) ⟨e :: opened, none⟩
  | after {es : List Event} {e : Element} {s : String} : Contents es [e] s →
      Built es ⟨[], some e⟩

variable {es : List Event} {x : Event} {e p : Element} {d d₁ : Partial} {l l' r : List Element}
  {s s' t : String} {root : Option Element} {k : Nat} {reason reason' : Malformed}

namespace Contents

/-- Within an element the pieces are read as its contents. -/
theorem foldlM (h : Contents es l s) (p : Element) (r : List Element) (root : Option Element) :
    es.foldlM Partial.accept ⟨p :: r, root⟩ =
      .ok ⟨{ p with children := p.children ++ l, text := p.text ++ s } :: r, root⟩ := by
  induction h generalizing p r with
  | nil =>
    rw [List.append_nil, String.append_empty]
    cases p
    rfl
  | ignored _ ih =>
    rw [List.foldlM_append, ih]
    rfl
  | text _ ih | verbatim _ ih =>
    rw [List.foldlM_append, ih, ← String.append_assoc]
    rfl
  | single he _ ih =>
    rw [List.foldlM_append, ih, he, ← List.append_assoc]
    rfl
  | @paired es inner l s e _ _ ih ih' =>
    -- The element is open while its contents are read, and is then attached to `q`.
    have ho (q : Element) : (Event.opening e.name (some e.attributes) :: inner).foldlM
        Partial.accept ⟨q :: r, root⟩ = .ok ⟨e :: q :: r, root⟩ := by
      refine (ih' { name := e.name, attributes := e.attributes } (q :: r)).trans ?_
      rw [List.nil_append, String.empty_append]
      cases e
      rfl
    have hc (q : Element) : Partial.accept ⟨e :: q :: r, root⟩ (.closing e.name) =
        .ok ⟨{ q with children := q.children ++ [e] } :: r, root⟩ := if_pos rfl
    rw [List.foldlM_append, ih, Except.ok_bind, List.foldlM_append, ho, Except.ok_bind,
      ← List.append_assoc]
    simp only [List.foldlM_cons, List.foldlM_nil, hc, Except.ok_bind]
    rfl

/-- Pieces come to one list of elements and one text. -/
theorem unique (h : Contents es l s) (h' : Contents es l' s') : l = l' ∧ s = s' := by
  have he := (h.foldlM { name := "" } [] none).symm.trans (h'.foldlM { name := "" } [] none)
  simpa using he

theorem nesting (h : Contents es l s) (names : List String) :
    es.foldlM Event.nest? names = some names := by
  induction h generalizing names with
  | nil => rfl
  | ignored _ ih | text _ ih | verbatim _ ih | single _ _ ih =>
    rw [List.foldlM_append, ih]
    rfl
  | paired _ _ ih ih' => simp [ih, ih', Event.nest?]

theorem starts (h : Contents es l s) : l = [] ↔ ∀ x ∈ es, x.starts = false := by
  induction h with
  | nil => simp
  | ignored _ ih | text _ ih | verbatim _ ih =>
    simp [ih, or_imp, forall_and, Event.starts]
  | single _ _ _ | paired _ _ _ _ => simp [or_imp, forall_and, Event.starts]

end Contents

theorem nesting?_concat : nesting? (es ++ [x]) = (nesting? es).bind (Event.nest? · x) := by
  simp [nesting?, List.foldlM_append]

theorem nesting?_take (h : (nesting? es).isSome) (k : Nat) : (nesting? (es.take k)).isSome := by
  rw [nesting?, ← List.take_append_drop k es, List.foldlM_append] at h
  exact Option.isSome_of_isSome_bind h

/-- Nothing can be closed where nothing begins. -/
theorem nesting?_eq_nil (h : (nesting? es).isSome) (hs : ∀ x ∈ es, x.starts = false) :
    nesting? es = some [] := by
  induction es using List.reverseRecOn with
  | nil => rfl
  | append_singleton es x ih =>
    rw [nesting?_concat] at h ⊢
    have hes := ih (Option.isSome_of_isSome_bind h) fun y hy ↦ hs y (List.mem_append_left _ hy)
    rw [hes] at h ⊢
    have hx := hs x (List.mem_append_right _ (List.mem_singleton_self x))
    cases x with
    | opening | single => cases hx
    | closing => cases h
    | _ => rfl

namespace Built

theorem nesting (h : Built es d) : nesting? es = some (d.opened.map Element.name) := by
  induction h with
  | before h => exact h.nesting []
  | after h => exact h.nesting []
  | inside _ h ih =>
    rw [nesting?] at ih ⊢
    simp [List.foldlM_append, ih, h.nesting, Event.nest?]

/-- What comes next within the innermost open element changes only its contents. -/
theorem extend {qs : List Event} (h : Built es ⟨p :: r, root⟩)
    (hq : ∀ es, Contents es p.children p.text → Contents (es ++ qs) l t) :
    Built (es ++ qs) ⟨{ p with children := l, text := t } :: r, root⟩ := by
  cases h with
  | inside h hi =>
    rw [List.append_assoc, List.cons_append]
    exact inside h (e := { p with children := l, text := t }) (hq _ hi)

/-- An element that is complete finds its place. -/
theorem attach {qs : List Event} (h : Built es d)
    (hq : ∀ es l s, Contents es l s → Contents (es ++ qs) (l ++ [e]) s)
    (ha : Partial.Attaches e d d₁) : Built (es ++ qs) d₁ := by
  cases ha with
  | child => exact h.extend fun _ ↦ hq _ _ _
  | root =>
    cases h with
    | before h => exact .after (hq _ _ _ h)

theorem takes (h : Built es d) (ht : Partial.Takes x d d₁) : Built (es ++ [x]) d₁ := by
  cases ht with
  | @opening d name attributes ho =>
    obtain ⟨opened, root⟩ := d
    have hroot : root = none := by
      cases h with
      | before | inside => rfl
      | after => exact ho rfl
    subst hroot
    exact inside h (e := { name, attributes }) .nil
  | single ha => exact h.attach (fun _ _ _ ↦ .single rfl) ha
  | closing ha =>
    cases h with
    | inside h hi =>
      rw [List.append_assoc]
      exact h.attach (fun _ _ _ h ↦ .paired h hi) ha
  | text => exact h.extend fun _ ↦ .text
  | verbatim => exact h.extend fun _ ↦ .verbatim
  | blank hb =>
    cases h with
    | before h => exact .before h.text
    | after h => exact .after h.text
  | ignored =>
    cases h with
    | before h => exact .before h.ignored
    | after h => exact .after h.ignored
    | inside h hi =>
      rw [List.append_assoc]
      exact .inside h hi.ignored

theorem foldlM (h : es.foldlM Partial.accept {} = .ok d) : Built es d := by
  induction es using List.reverseRecOn generalizing d with
  | nil =>
    cases h
    exact .before .nil
  | append_singleton es x ih =>
    rw [List.foldlM_append, Except.bind_eq_ok] at h
    obtain ⟨d', hd', h⟩ := h
    obtain ⟨_, ht, h⟩ := Partial.foldlM_cons_ok.1 h
    cases h
    exact (ih hd').takes ht

theorem isSome_root (h : Built es ⟨[], root⟩) : root.isSome ↔ ∃ y ∈ es, y.starts = true := by
  cases h with
  | before h => simpa using h.starts
  | after h => simpa using not_congr h.starts

end Built

/-- Within an element any valid piece is taken in. -/
theorem accept_inside (hv : x.Valid) (hn : (Event.nest? ((p :: r).map Element.name) x).isSome) :
    ∃ d, Partial.accept ⟨p :: r, none⟩ x = .ok d := by
  cases x with
  | opening name attributes | single name attributes =>
    obtain ⟨a, rfl⟩ := Option.isSome_iff_exists.1 hv
    exact ⟨_, rfl⟩
  | closing name =>
    have hname : p.name = name := by simpa [Event.nest?] using hn
    cases r with
    | nil => exact ⟨⟨[], some p⟩, if_pos hname⟩
    | cons q r => exact ⟨⟨{ q with children := q.children ++ [p] } :: r, none⟩, if_pos hname⟩
  | text content =>
    obtain ⟨s, rfl⟩ := Option.isSome_iff_exists.1 hv
    exact ⟨_, rfl⟩
  | verbatim | ignored => exact ⟨_, rfl⟩
  | broken => cases hv

/-- Outside of all elements exactly what offends is refused. -/
theorem accept_outside (hv : x.Valid) (hn : (Event.nest? [] x).isSome)
    (hr : root.isSome ↔ ∃ y ∈ es, y.starts = true) :
    Partial.accept ⟨[], root⟩ x = .error reason ↔ Offends es x reason := by
  cases x with
  | opening name attributes | single name attributes =>
    obtain ⟨a, rfl⟩ := Option.isSome_iff_exists.1 hv
    cases root with
    | some e =>
      obtain ⟨y, hy, hs⟩ := hr.1 rfl
      constructor
      · intro h
        cases h
        exact .secondRoot hy hs rfl
      · intro h
        cases h
        rfl
    | none =>
      constructor
      · intro h
        cases h
      · intro h
        cases h with
        | secondRoot hy hs => cases hr.2 ⟨_, hy, hs⟩
  | closing name => cases hn
  | text content =>
    obtain ⟨s, rfl⟩ := Option.isSome_iff_exists.1 hv
    constructor
    · intro h
      simp only [Partial.accept, Partial.append] at h
      split at h
      · cases h
      · next hb =>
        cases h
        exact .text (Bool.not_eq_true _ ▸ hb)
    · intro h
      cases h with
      | text hb => exact if_neg (Bool.not_eq_true _ ▸ hb)
      | secondRoot _ _ hx => cases hx
  | verbatim s =>
    constructor
    · intro h
      cases h
      exact .verbatim
    · intro h
      cases h with
      | verbatim => rfl
      | secondRoot _ _ hx => cases hx
  | ignored =>
    constructor
    · intro h
      cases h
    · intro h
      cases h with
      | secondRoot _ _ hx => cases hx
  | broken => cases hv

/-- What is refused is what offends. -/
theorem Built.accept_error (h : Built es d) (hv : x.Valid)
    (hn : (nesting? (es ++ [x])).isSome) :
    d.accept x = .error reason ↔ nesting? es = some [] ∧ Offends es x reason := by
  have hes := h.nesting
  rw [nesting?_concat, hes, Option.bind_some] at hn
  cases h with
  | inside =>
    obtain ⟨d₁, hd⟩ := accept_inside hv hn
    constructor
    · intro he
      cases hd.symm.trans he
    · rintro ⟨hnil, -⟩
      cases hes.symm.trans hnil
  | before h =>
    rw [accept_outside hv hn (before h).isSome_root]
    exact (and_iff_right hes).symm
  | after h =>
    rw [accept_outside hv hn (after h).isSome_root]
    exact (and_iff_right hes).symm

theorem offendsAt_concat : OffendsAt (es ++ [x]) k reason ↔
    OffendsAt es k reason ∨ k = es.length ∧ nesting? es = some [] ∧ Offends es x reason := by
  simp only [OffendsAt, Outside]
  rcases Nat.lt_trichotomy k es.length with hk | rfl | hk
  · simp [List.take_append_of_le_length hk.le, List.getElem?_append_left hk, hk.ne]
  · simp
  · simp [List.getElem?_append_right hk.le, hk.ne', Nat.sub_ne_zero_of_lt hk, hk.le]

theorem OffendsAt.lt (h : OffendsAt es k reason) : k < es.length := by
  obtain ⟨-, x, hx, -⟩ := h
  exact (List.getElem?_eq_some_iff.1 hx).1

theorem OffendsAt.unique (h : OffendsAt es k reason) (h' : OffendsAt es k reason') :
    reason = reason' := by
  obtain ⟨-, x, hx, h⟩ := h
  obtain ⟨-, y, hy, h'⟩ := h'
  cases hx.symm.trans hy
  cases h with
  | secondRoot _ _ hs =>
    cases h' with
    | secondRoot => rfl
    | text | verbatim => cases hs
  | text =>
    cases h' with
    | secondRoot _ _ hs => cases hs
    | text => rfl
  | verbatim =>
    cases h' with
    | secondRoot _ _ hs => cases hs
    | verbatim => rfl

/-- Reading stops at the first piece that offends. -/
theorem foldlM_cases (hv : ∀ x ∈ es, x.Valid) (hn : (nesting? es).isSome) :
    (∃ d, es.foldlM Partial.accept {} = .ok d ∧ ∀ k reason, ¬ OffendsAt es k reason) ∨
      ∃ reason k, es.foldlM Partial.accept {} = .error reason ∧ OffendsAt es k reason ∧
        ∀ j < k, ∀ reason', ¬ OffendsAt es j reason' := by
  -- What offends is judged by the pieces before it, so that the list grows at its end.
  induction es using List.reverseRecOn with
  | nil => exact .inl ⟨{}, rfl, fun _ _ h ↦ absurd h.lt (Nat.not_lt_zero _)⟩
  | append_singleton es x ih =>
    have hes : (nesting? es).isSome := by
      rw [nesting?_concat] at hn
      exact Option.isSome_of_isSome_bind hn
    have hx : x.Valid := hv x (List.mem_append_right _ (List.mem_singleton_self x))
    rcases ih (fun y hy ↦ hv y (List.mem_append_left _ hy)) hes with
      ⟨d, hd, ho⟩ | ⟨reason, k, he, hk, hmin⟩
    · have hacc (reason : Malformed) : d.accept x = .error reason ↔
          nesting? es = some [] ∧ Offends es x reason := (Built.foldlM hd).accept_error hx hn
      have hf : (es ++ [x]).foldlM Partial.accept {} = d.accept x := by
        rw [List.foldlM_append, hd, Except.ok_bind, List.foldlM_cons]
        exact bind_pure _
      cases ha : d.accept x with
      | ok d₁ =>
        refine .inl ⟨d₁, hf.trans ha, fun k reason h ↦ ?_⟩
        rcases offendsAt_concat.1 h with h | ⟨-, h⟩
        · exact ho k reason h
        · cases ha.symm.trans ((hacc reason).2 h)
      | error reason =>
        refine .inr ⟨reason, es.length, hf.trans ha,
          offendsAt_concat.2 (.inr ⟨rfl, (hacc reason).1 ha⟩), fun j hj reason' h ↦ ?_⟩
        rcases offendsAt_concat.1 h with h | ⟨rfl, -⟩
        · exact ho j reason' h
        · exact Nat.lt_irrefl _ hj
    · refine .inr ⟨reason, k, ?_, offendsAt_concat.2 (.inl hk), fun j hj reason' h ↦ ?_⟩
      · rw [List.foldlM_append, he, Except.error_bind]
      · rcases offendsAt_concat.1 h with h | ⟨rfl, -⟩
        · exact hmin j hj reason' h
        · exact Nat.lt_asymm hj hk.lt

/-- The first element is at the top level. -/
theorem topLevel_findIdx (hn : (nesting? es).isSome) (h : ∃ x ∈ es, x.starts = true) :
    TopLevel es (es.findIdx Event.starts) := by
  refine ⟨nesting?_eq_nil (nesting?_take hn _) fun x hx ↦ ?_, ?_⟩
  · obtain ⟨i, hi, rfl⟩ := List.mem_take_iff_getElem.1 hx
    exact List.not_of_lt_findIdx (Nat.lt_min.1 hi).1
  · have hl := List.findIdx_lt_length_of_exists h
    exact ⟨_, List.getElem?_eq_getElem hl, List.findIdx_getElem⟩

theorem isDocument_iff : IsDocument es ↔ (∀ k reason, ¬ OffendsAt es k reason) ∧
    nesting? es = some [] ∧ ∃ x ∈ es, x.starts = true := by
  constructor
  · intro h
    obtain ⟨k, ⟨ho, x, hx, hs⟩, hu⟩ := h.one
    refine ⟨?_, h.closed, x, List.mem_of_getElem? hx, hs⟩
    rintro j reason ⟨hj, y, hy, hoff⟩
    cases hoff with
    | @secondRoot _ z hz hzs hys =>
      have hn : (nesting? es).isSome := by
        rw [h.closed]
        rfl
      have hfirst := topLevel_findIdx hn ⟨y, List.mem_of_getElem? hy, hys⟩
      have hjk : j = es.findIdx Event.starts := (hu j ⟨hj, y, hy, hys⟩).trans (hu _ hfirst).symm
      obtain ⟨i, hi, rfl⟩ := List.mem_take_iff_getElem.1 hz
      have hlt := (Nat.lt_min.1 hi).1
      rw [hjk] at hlt
      rw [List.not_of_lt_findIdx hlt] at hzs
      cases hzs
    | text hb =>
      rw [h.blank j _ hj hy] at hb
      cases hb
    | verbatim => exact h.verbatim j _ hj hy
  · rintro ⟨ho, hc, hs⟩
    have hn : (nesting? es).isSome := by
      rw [hc]
      rfl
    -- Of two elements at the top level the second one offends.
    have hlt {i j : Nat} (hi : TopLevel es i) (hj : TopLevel es j) : ¬ i < j := by
      intro hij
      obtain ⟨-, x, hx, hxs⟩ := hi
      obtain ⟨hj, y, hy, hys⟩ := hj
      have hmem : x ∈ es.take j := List.mem_of_getElem? ((List.getElem?_take_of_lt hij).trans hx)
      exact ho j _ ⟨hj, y, hy, .secondRoot hmem hxs hys⟩
    refine ⟨⟨_, topLevel_findIdx hn hs, fun j hj ↦ ?_⟩, hc, fun k s hk hx ↦ ?_,
      fun k s hk hx ↦ ?_⟩
    · exact Nat.le_antisymm (Nat.not_lt.1 (hlt (topLevel_findIdx hn hs) hj))
        (Nat.not_lt.1 (hlt hj (topLevel_findIdx hn hs)))
    · exact ho k _ ⟨hk, _, hx, .verbatim⟩
    · by_contra hb
      exact ho k _ ⟨hk, _, hx, .text (Bool.not_eq_true _ ▸ hb)⟩

namespace Flaw

theorem not_isDocument (h : Flaw es reason) : ¬ IsDocument es := by
  rw [isDocument_iff]
  rintro ⟨ho, hc, x, hx, hs⟩
  cases h with
  | piece h => exact ho _ _ h
  | unclosed _ h => cases hc.symm.trans h
  | noRoot _ _ h =>
    rw [h x hx] at hs
    cases hs

theorem unique (h : Flaw es reason) (h' : Flaw es reason') : reason = reason' := by
  cases h with
  | @piece k _ hk hmin =>
    cases h' with
    | @piece k' _ hk' hmin' =>
      have hkk : k = k' := Nat.le_antisymm (Nat.not_lt.1 fun hlt ↦ hmin _ hlt _ hk')
        (Nat.not_lt.1 fun hlt ↦ hmin' _ hlt _ hk)
      subst hkk
      exact hk.unique hk'
    | unclosed ho | noRoot ho => exact absurd hk (ho _ _)
  | unclosed ho hs =>
    cases h' with
    | piece hk => exact absurd hk (ho _ _)
    | unclosed _ hs' =>
      cases hs.symm.trans hs'
      rfl
    | noRoot _ hs' => cases hs.symm.trans hs'
  | noRoot ho hs =>
    cases h' with
    | piece hk => exact absurd hk (ho _ _)
    | unclosed _ hs' => cases hs.symm.trans hs'
    | noRoot => rfl

end Flaw

namespace Element

theorem ofEvents_cases (hv : ∀ x ∈ es, x.Valid) (hn : (nesting? es).isSome) :
    (∃ e s, ofEvents es = .ok e ∧ IsDocument es ∧ Contents es [e] s) ∨
      ∃ reason, ofEvents es = .error reason ∧ Flaw es reason := by
  rcases foldlM_cases hv hn with ⟨d, hd, ho⟩ | ⟨reason, k, he, hk, hmin⟩
  · have hb := Built.foldlM hd
    have hs := hb.nesting
    rw [ofEvents, hd, Except.ok_bind]
    cases hb with
    | before h =>
      exact .inr ⟨_, rfl, .noRoot ho hs (h.starts.1 rfl)⟩
    | inside => exact .inr ⟨_, rfl, .unclosed ho hs⟩
    | @after _ e s h =>
      have hroot := (Built.after h).isSome_root.1 rfl
      exact .inl ⟨e, s, rfl, isDocument_iff.2 ⟨ho, hs, hroot⟩, h⟩
  · rw [ofEvents, he, Except.error_bind]
    exact .inr ⟨reason, rfl, .piece hk hmin⟩

/-- Of valid pieces whose closing tags match, exactly the documents are read, as the one element
that they come to, and what is refused is refused for the first thing that is wrong with it. -/
theorem ofEvents_exact (hv : ∀ x ∈ es, x.Valid) (hn : (nesting? es).isSome) :
    ((∃ e, ofEvents es = .ok e) ↔ IsDocument es) ∧
      (∀ e, ofEvents es = .ok e ↔ IsDocument es ∧ ∃ s, Contents es [e] s) ∧
      ∀ reason, ofEvents es = .error reason ↔ Flaw es reason := by
  rcases ofEvents_cases hv hn with ⟨e, s, he, hd, hc⟩ | ⟨reason, he, hf⟩
  · simp only [he]
    refine ⟨iff_of_true ⟨e, rfl⟩ hd, fun e' ↦ ?_, fun reason ↦ ?_⟩
    · constructor
      · intro h
        cases h
        exact ⟨hd, s, hc⟩
      · rintro ⟨-, s', hc'⟩
        rw [List.singleton_inj.1 (hc.unique hc').1]
    · exact iff_of_false nofun fun h ↦ h.not_isDocument hd
  · simp only [he]
    refine ⟨iff_of_false (by simp) hf.not_isDocument, fun e ↦ ?_, fun reason' ↦ ?_⟩
    · exact iff_of_false nofun fun h ↦ hf.not_isDocument h.1
    · rw [Except.error.injEq]
      constructor
      · rintro rfl
        exact hf
      · exact hf.unique

/-- Text before, between and after two elements within the root. -/
def nestedEvents : List Event :=
  [.ignored, .opening "a" (some [("k", "v")]), .text (some "x"), .single "b" (some []),
    .verbatim " ", .opening "c" (some []), .text (some "y"), .closing "c", .text (some "z"),
    .closing "a", .text (some " ")]

theorem ofEvents_exact_nested :
    (∀ x ∈ nestedEvents, x.Valid) ∧ (nesting? nestedEvents).isSome ∧ IsDocument nestedEvents ∧
      ∃ s, Contents nestedEvents [{
        name := "a"
        attributes := [("k", "v")]
        children := [{ name := "b" }, { name := "c", text := "y" }]
        text := "x z" }] s := by
  have hv : ∀ x ∈ nestedEvents, x.Valid := by simp [nestedEvents, Event.Valid]
  have hn : (nesting? nestedEvents).isSome := by decide
  exact ⟨hv, hn, ((ofEvents_exact hv hn).2.1 _).1 (by cbv)⟩

end Element

end ThreeAddress.Markup
