import ThreeAddress.Markup.Entity

namespace ThreeAddress.Markup

variable {s t : List Char} {name : Option (List Char)} {c : Char}

/-- No name of an entity is left unfinished: behind every ampersand there is a semicolon. -/
def Closed (s : List Char) : Prop := ∀ before after, s = before ++ '&' :: after → ';' ∈ after

theorem Closed.tail (h : Closed (c :: s)) : Closed s := by
  intro before after hs
  exact h (c :: before) after (by rw [hs, List.cons_append])

theorem Closed.of_not_mem (h : '&' ∉ s) : Closed s := by
  intro before after hs
  exact absurd (hs ▸ List.mem_append_right before List.mem_cons_self) h

theorem unescapeFrom?_append (hs : Closed s) (hn : name.isSome → ';' ∈ s) :
    unescapeFrom? name (s ++ t) =
      (unescapeFrom? name s).bind fun a ↦ (unescape? t).map (a ++ ·) := by
  induction s generalizing name with
  | nil =>
    cases name with
    | none => simp [unescapeFrom?, unescape?]
    | some n => exact absurd (hn rfl) List.not_mem_nil
  | cons c s ih =>
    cases name with
    | none =>
      by_cases hc : c = '&'
      · have hm : ';' ∈ s := hs [] s (by rw [hc, List.nil_append])
        simp only [List.cons_append, unescapeFrom?, hc, ↓reduceIte]
        exact ih hs.tail fun _ ↦ hm
      · simp only [List.cons_append, unescapeFrom?, hc, ↓reduceIte]
        rw [ih hs.tail (by simp)]
        cases unescapeFrom? none s <;> cases unescape? t <;> rfl
    | some n =>
      by_cases hc : c = ';'
      · simp only [List.cons_append, unescapeFrom?, hc, ↓reduceIte]
        rw [ih hs.tail (by simp)]
        cases entity? n.reverse <;> cases unescapeFrom? none s <;> cases unescape? t <;> rfl
      · by_cases ha : c = '&'
        · simp [unescapeFrom?, ha]
        · simp only [List.cons_append, unescapeFrom?, hc, ha, ↓reduceIte]
          exact ih hs.tail fun h ↦ (List.mem_cons.1 (hn h)).resolve_left (Ne.symm hc)

/-- A text can be cut between two entities and decoded in parts. -/
theorem unescape?_append (hs : Closed s) :
    unescape? (s ++ t) = (unescape? s).bind fun a ↦ (unescape? t).map (a ++ ·) :=
  unescapeFrom?_append hs (by simp)

theorem unescape?_eq_self (h : '&' ∉ s) : unescape? s = some s := by
  induction s with
  | nil => rfl
  | cons c s ih =>
    rw [List.mem_cons, not_or] at h
    have hs := ih h.2
    rw [unescape?] at hs ⊢
    rw [unescapeFrom?, if_neg (Ne.symm h.1), hs]
    rfl

/-- The entity that is written for a character with a meaning in markup. -/
def predefined? : Char → Option (List Char)
  | '<' => some ['l', 't']
  | '>' => some ['g', 't']
  | '&' => some ['a', 'm', 'p']
  | '"' => some ['q', 'u', 'o', 't']
  | '\'' => some ['a', 'p', 'o', 's']
  | _ => none

def escapeChar (c : Char) : List Char :=
  match predefined? c with
  | some name => '&' :: name ++ [';']
  | none => [c]

def escape (s : List Char) : List Char := s.flatMap escapeChar

theorem escape_cons (c : Char) (s : List Char) : escape (c :: s) = escapeChar c ++ escape s :=
  List.flatMap_cons

theorem predefined?_eq_some {n : List Char} (h : predefined? c = some n) :
    entity? n = some c ∧ ∀ d ∈ n, d.isAlphanum = true := by
  unfold predefined? at h
  split at h <;> cases h
  all_goals exact ⟨rfl, List.all_eq_true.1 rfl⟩

theorem predefined?_eq_none (h : predefined? c = none) : c ∉ ['<', '>', '&', '"', '\''] := by
  intro hc
  simp only [List.mem_cons, List.not_mem_nil, or_false] at hc
  rcases hc with rfl | rfl | rfl | rfl | rfl <;> cases h

theorem unescapeFrom?_name {seen n : List Char} (h : ∀ d ∈ n, d ≠ ';' ∧ d ≠ '&') :
    unescapeFrom? (some seen) (n ++ ';' :: s) =
      (entity? (seen.reverse ++ n)).bind fun d ↦ (unescape? s).map (d :: ·) := by
  induction n generalizing seen with
  | nil =>
    rw [List.nil_append, List.append_nil, unescapeFrom?]
    cases entity? seen.reverse with
    | none => rfl
    | some d => cases hs : unescapeFrom? none s <;> simp [unescape?, hs]
  | cons d n ih =>
    obtain ⟨hd, hn⟩ := List.forall_mem_cons.1 h
    rw [List.cons_append, unescapeFrom?, if_neg hd.1, if_neg hd.2, ih hn, List.reverse_cons,
      List.append_assoc, List.singleton_append]

theorem unescape?_escapeChar (c : Char) (s : List Char) :
    unescape? (escapeChar c ++ s) = (unescape? s).map (c :: ·) := by
  rw [escapeChar]
  split
  · next n hn =>
    obtain ⟨he, ha⟩ := predefined?_eq_some hn
    have hd : ∀ d ∈ n, d ≠ ';' ∧ d ≠ '&' := by
      intro d hd
      constructor
      all_goals
        rintro rfl
        exact absurd (ha _ hd) (by decide)
    rw [unescape?, List.append_assoc, List.cons_append, unescapeFrom?, if_pos rfl,
      List.singleton_append, unescapeFrom?_name hd, List.reverse_nil, List.nil_append, he]
    rfl
  · next hn =>
    have hc : c ≠ '&' := fun h ↦ predefined?_eq_none hn (by rw [h]; decide)
    rw [List.singleton_append, unescape?, unescapeFrom?, if_neg hc]
    rfl

theorem unescape?_escape (s : List Char) : unescape? (escape s) = some s := by
  induction s with
  | nil => rfl
  | cons c s ih => rw [escape_cons, unescape?_escapeChar, ih, Option.map_some]

/-- What has a meaning in markup does not occur in an escaped text, but for the ampersand. -/
theorem not_mem_escape {d : Char} (hd : d ∈ ['<', '>', '"', '\'']) (s : List Char) :
    d ∉ escape s := by
  rw [escape, List.mem_flatMap]
  intro h
  obtain ⟨c, -, hc⟩ := h
  rw [escapeChar] at hc
  split at hc
  · next n hn =>
    have ha := (predefined?_eq_some hn).2 d
    simp only [List.mem_cons, List.not_mem_nil, or_false, List.mem_append] at hd hc
    rcases hd with rfl | rfl | rfl | rfl <;> simp_all
  · next hn =>
    cases List.mem_singleton.1 hc
    have hp := predefined?_eq_none hn
    simp_all

end ThreeAddress.Markup
