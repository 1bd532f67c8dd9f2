import ThreeAddress.Proofs.Text
import ThreeAddress.Text.Escaped

namespace ThreeAddress.Text.Escaped

/-- A blank whose code does not fit in the three digits of an escape. -/
def isFarBlank (c : Char) : Bool := isBlank c && 1000 ≤ c.toNat

/-- What is refused outside of an escape. -/
def isRefused (c : Char) : Bool := c == '#' || isBlank c

variable {c : Char} {s : List Char}

theorem toNat_digit (n : Nat) : (digit n).toNat = 48 + n % 10 := by
  have hn : (48 + n % 10).isValidChar := .inl (by omega)
  rw [digit, toNat_ofNat hn]

theorem isDigit_digit (n : Nat) : (digit n).isDigit = true := by
  have hl : n % 10 < 10 := Nat.mod_lt n (by decide)
  rw [isDigit_iff, toNat_digit]
  omega

theorem ofDigits_digit (h : c.toNat < 1000) :
    ofDigits (digit (c.toNat / 100)) (digit (c.toNat / 10)) (digit c.toNat) = c := by
  have hn : 100 * (48 + c.toNat / 100 % 10 - 48) + 10 * (48 + c.toNat / 10 % 10 - 48) +
      (48 + c.toNat % 10 - 48) = c.toNat := by omega
  rw [ofDigits, toNat_digit, toNat_digit, toNat_digit, hn, Char.ofNat_toNat]

theorem isRefused_digit (n : Nat) : isRefused (digit n) = false := by
  have hd := toNat_digit n
  have hl : n % 10 < 10 := Nat.mod_lt n (by decide)
  simp only [isRefused, isBlank, Bool.or_eq_false_iff, Bool.and_eq_false_iff, beq_eq_false_iff_ne,
    decide_eq_false_iff_not, ne_eq, ← Char.toNat_inj, hd]
  rw [show '#'.toNat = 35 from rfl]
  omega

theorem isRefused_of_far (h : 1000 ≤ c.toNat) : isRefused c = isFarBlank c := by
  have hc : c ≠ '#' := by
    rintro rfl
    exact absurd h (by decide)
  rw [isRefused, beq_eq_false_iff_ne.2 hc, Bool.false_or, isFarBlank, decide_eq_true h,
    Bool.and_true]

theorem isFarBlank_of_near (h : c.toNat < 1000) : isFarBlank c = false := by
  rw [isFarBlank, decide_eq_false (Nat.not_le.2 h), Bool.and_false]

/-- A character is escaped, or it is written as it is; then only a far blank is refused. -/
theorem encodeChar_cases (c : Char) :
    c.toNat < 1000 ∧
        encodeChar c = ['\\', digit (c.toNat / 100), digit (c.toNat / 10), digit c.toNat] ∨
      encodeChar c = [c] ∧ c ≠ '\\' ∧ isRefused c = isFarBlank c := by
  by_cases hn : c.toNat < 1000
  · cases hr : (c = '#' || c = '\\' || isBlank c || isControl c) with
    | true => exact .inl ⟨hn, by rw [encodeChar, hr, decide_eq_true hn, Bool.and_self, if_pos rfl]⟩
    | false =>
      refine .inr ⟨by rw [encodeChar, hr, Bool.false_and, if_neg Bool.false_ne_true], ?_⟩
      simp only [Bool.or_eq_false_iff, decide_eq_false_iff_not] at hr
      obtain ⟨⟨⟨hs, hb⟩, hw⟩, -⟩ := hr
      exact ⟨hb, by rw [isFarBlank_of_near hn, isRefused, beq_eq_false_iff_ne.2 hs, hw, Bool.or_self]⟩
  · refine .inr ⟨by rw [encodeChar, decide_eq_false hn, Bool.and_false, if_neg Bool.false_ne_true],
      ?_, isRefused_of_far (Nat.not_lt.1 hn)⟩
    rintro rfl
    exact hn (by decide)

theorem encodeChar_ne_nil (c : Char) : encodeChar c ≠ [] := by
  rcases encodeChar_cases c with ⟨-, he⟩ | ⟨he, -⟩ <;> rw [he] <;> exact List.cons_ne_nil _ _

theorem decode_cons (h : c ≠ '\\') (s : List Char) :
    decode (c :: s) = if isRefused c then none else (decode s).map (c :: ·) := by
  rw [decode]
  · simp [h, isRefused]
  · rintro a b d t rfl
    exact absurd rfl h

theorem decode_encodeChar (c : Char) (s : List Char) :
    decode (encodeChar c ++ s) = if isFarBlank c then none else (decode s).map (c :: ·) := by
  rcases encodeChar_cases c with ⟨hc, he⟩ | ⟨he, hc, hr⟩
  · simp only [he, List.cons_append, List.nil_append, decode, isDigit_digit, Bool.and_self,
      ↓reduceIte, ofDigits_digit hc, isFarBlank_of_near hc, Bool.false_eq_true]
  · rw [he, List.singleton_append, decode_cons hc, hr]

theorem filter_encodeChar (c : Char) :
    (encodeChar c).filter isRefused = [c].filter isFarBlank := by
  rcases encodeChar_cases c with ⟨hc, he⟩ | ⟨he, -, hr⟩
  · have hb : isRefused '\\' = false := by decide
    simp only [he, List.filter_cons, hb, isRefused_digit, isFarBlank_of_near hc,
      Bool.false_eq_true, ↓reduceIte, List.filter_nil]
  · simp only [he, List.filter_cons, List.filter_nil, hr]

theorem decode_encode (s : List Char) :
    decode (encode s) = if s.any isFarBlank then none else some s := by
  induction s with
  | nil => rfl
  | cons c s ih =>
    rw [encode, List.flatMap_cons, ← encode, decode_encodeChar, ih, List.any_cons]
    cases isFarBlank c with
    | true => rfl
    | false => cases s.any isFarBlank <;> rfl

theorem toNat_ofDigits {a b d : Char} (ha : a.isDigit = true) (hb : b.isDigit = true)
    (hd : d.isDigit = true) : (ofDigits a b d).toNat = Nat.ofDigitChars 10 [a, b, d] 0 := by
  rw [isDigit_iff] at ha hb hd
  have hn : 100 * (a.toNat - 48) + 10 * (b.toNat - 48) + (d.toNat - 48) =
      Nat.ofDigitChars 10 [a, b, d] 0 := by
    simp only [Nat.ofDigitChars, List.foldl_cons, List.foldl_nil, show '0'.toNat = 48 from rfl]
    omega
  have hv : (100 * (a.toNat - 48) + 10 * (b.toNat - 48) + (d.toNat - 48)).isValidChar :=
    .inl (by omega)
  rw [ofDigits, toNat_ofNat hv, hn]

theorem toNat_ofDigits_lt {a b d : Char} (ha : a.isDigit = true) (hb : b.isDigit = true)
    (hd : d.isDigit = true) : (ofDigits a b d).toNat < 1000 := by
  rw [toNat_ofDigits ha hb hd]
  rw [isDigit_iff] at ha hb hd
  simp only [Nat.ofDigitChars, List.foldl_cons, List.foldl_nil, show '0'.toNat = 48 from rfl]
  omega

/-- A blank comes out of an escape only, and an escape reaches none that is far. -/
theorem any_isFarBlank_of_decode {t : List Char} (h : decode s = some t) :
    t.any isFarBlank = false := by
  induction s using decode.induct generalizing t with
  | case1 =>
    cases h
    rfl
  | case2 a b d s hdigits ih =>
    rw [decode, if_pos hdigits] at h
    obtain ⟨u, hu, rfl⟩ := Option.map_eq_some_iff.1 h
    simp only [Bool.and_eq_true] at hdigits
    rw [List.any_cons, ih hu,
      isFarBlank_of_near (toNat_ofDigits_lt hdigits.1.1 hdigits.1.2 hdigits.2), Bool.or_self]
  | case3 a b d s hdigits =>
    rw [decode, if_neg hdigits] at h
    cases h
  | case4 c s hc hr =>
    rw [decode, if_pos hr] at h
    · cases h
    · exact hc
  | case5 c s hc hr ih =>
    rw [decode, if_neg hr] at h
    · obtain ⟨u, hu, rfl⟩ := Option.map_eq_some_iff.1 h
      have hb : isBlank c = false := (Bool.or_eq_false_iff.1 (Bool.eq_false_iff.2 hr)).2
      rw [List.any_cons, ih hu, isFarBlank, hb, Bool.false_and, Bool.or_self]
    · exact hc

theorem filter_encode (s : List Char) : (encode s).filter isRefused = s.filter isFarBlank := by
  induction s with
  | nil => rfl
  | cons c s ih =>
    rw [encode, List.flatMap_cons, ← encode, List.filter_append, filter_encodeChar, ih,
      ← List.filter_append, List.singleton_append]

theorem not_mem_encode (hr : isRefused c = true) (hn : c.toNat < 1000) : c ∉ encode s := by
  intro hc
  have hf : c ∈ s.filter isFarBlank := filter_encode s ▸ List.mem_filter.2 ⟨hc, hr⟩
  have hb := (List.mem_filter.1 hf).2
  rw [isFarBlank_of_near hn] at hb
  cases hb

theorem encodeChar_append_inj {d : Char} {t : List Char}
    (h : encodeChar c ++ s = encodeChar d ++ t) : c = d ∧ s = t := by
  rcases encodeChar_cases c with ⟨hc, he⟩ | ⟨he, hc, -⟩ <;>
    rcases encodeChar_cases d with ⟨hd, he'⟩ | ⟨he', hd, -⟩ <;>
    simp only [he, he', List.cons_append, List.nil_append, List.cons.injEq, true_and] at h
  · obtain ⟨h₁, h₂, h₃, hs⟩ := h
    refine ⟨?_, hs⟩
    rw [← ofDigits_digit hc, ← ofDigits_digit hd, h₁, h₂, h₃]
  · exact absurd h.1.symm hd
  · exact absurd h.1 hc
  · exact h

/-- Different texts are escaped differently, also those that are not read back. -/
theorem encode_injective : Function.Injective encode := by
  intro s t h
  induction s generalizing t with
  | nil =>
    cases t with
    | nil => rfl
    | cons d t =>
      rw [encode, encode, List.flatMap_nil, List.flatMap_cons] at h
      exact absurd (List.append_eq_nil_iff.1 h.symm).1 (encodeChar_ne_nil d)
  | cons c s ih =>
    cases t with
    | nil =>
      rw [encode, encode, List.flatMap_nil, List.flatMap_cons] at h
      exact absurd (List.append_eq_nil_iff.1 h).1 (encodeChar_ne_nil c)
    | cons d t =>
      rw [encode, encode, List.flatMap_cons, List.flatMap_cons, ← encode, ← encode] at h
      obtain ⟨rfl, hs⟩ := encodeChar_append_inj h
      rw [ih hs]

/-- An escaped text has no `#`, and no blanks but the far ones of the text, which stay what they are.
It is read back unless it has one of these. -/
theorem escape_round_trip (s : List Char) :
    (encode s).filter isRefused = s.filter isFarBlank ∧
      decode (encode s) = if s.any isFarBlank then none else some s :=
  ⟨filter_encode s, decode_encode s⟩

/-- The ideographic space is far. -/
theorem escape_round_trip_fails :
    ¬ ∀ s, (∀ c ∈ encode s, isBlank c = false ∧ c ≠ '#') ∧ decode (encode s) = some s := by
  intro h
  exact absurd (h ['\u3000']).2 (by decide)

end ThreeAddress.Text.Escaped
