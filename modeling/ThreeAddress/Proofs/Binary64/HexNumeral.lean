import Mathlib.Data.List.Forall2
import ThreeAddress.Binary64.Text
import ThreeAddress.Proofs.Binary64.Digits
import ThreeAddress.Proofs.Binary64.Notation

namespace ThreeAddress.Binary64

open Text Numeral

def Spells (s : List Char) (digits : List ℕ) : Prop :=
  List.Forall₂ (fun c d ↦ Numeral.hexDigit? c = some d) s digits

/-- At least one digit, and at most one point before, between or after the digits. -/
def IsMantissa (s : List Char) (whole places : List ℕ) : Prop :=
  ∃ a b, Spells a whole ∧ Spells b places ∧ (a ≠ [] ∨ b ≠ []) ∧
    (s = a ++ '.' :: b ∨ s = a ∧ b = [])

/-- The power of two, of any size, or nothing. -/
def IsPower (s : List Char) (e : ℤ) : Prop :=
  s = [] ∧ e = 0 ∨ ∃ t, s = 'p' :: t ∧ Numeral.integer? t = some e

/-- Hexadecimal notation without a sign, in lower case. -/
def IsHexadecimal (s : List Char) (v : ℚ) : Prop :=
  ∃ mark mantissa power whole places e,
    s = mark ++ (mantissa ++ power) ∧ (mark = [] ∨ mark = ['0', 'x']) ∧
    IsMantissa mantissa whole places ∧ IsPower power e ∧
    v = hexValue (whole ++ places) * 2 ^ (e - 4 * places.length : ℤ)

/-- A number in hexadecimal notation, with its sign and its exact value. Blanks may surround it, and
the case of its letters does not matter. -/
def HexNumeral (s : List Char) (negative : Bool) (q : ℚ) : Prop :=
  ∃ before mark t after v, s = before ++ (mark ++ t) ++ after ∧
    (∀ c ∈ before, isBlank c = true) ∧ (∀ c ∈ after, isBlank c = true) ∧ IsSign negative mark ∧
    IsHexadecimal (t.map Char.toLower) v ∧ q = signed negative * v

variable {s t mark mantissa power : List Char} {whole places : List ℕ} {c : Char} {d : ℕ} {e : ℤ}

theorem isDigit_iff : c.isDigit = true ↔ 48 ≤ c.toNat ∧ c.toNat ≤ 57 := by
  simp only [Char.isDigit, Bool.and_eq_true, decide_eq_true_eq]
  exact Iff.rfl

theorem hexDigit?_eq_some (h : Numeral.hexDigit? c = some d) :
    d < 16 ∧ (48 ≤ c.toNat ∧ c.toNat ≤ 57 ∨ 65 ≤ c.toNat ∧ c.toNat ≤ 70 ∨
      97 ≤ c.toNat ∧ c.toNat ≤ 102) := by
  rw [Numeral.hexDigit?] at h
  split at h
  · next hc =>
    obtain ⟨hl, hu⟩ := isDigit_iff.1 hc
    cases h
    omega
  split at h
  · next hc =>
    have hl : 97 ≤ c.toNat := hc.1
    have hu : c.toNat ≤ 102 := hc.2
    cases h
    omega
  split at h
  · next hc =>
    have hl : 65 ≤ c.toNat := hc.1
    have hu : c.toNat ≤ 70 := hc.2
    cases h
    omega
  · cases h

theorem isBlank_of_isHexDigit (h : isHexDigit c = true) : isBlank c = false := by
  rw [← isSome_hexDigit?, Option.isSome_iff_exists] at h
  obtain ⟨d, hd⟩ := h
  obtain ⟨-, hc⟩ := hexDigit?_eq_some hd
  rw [← Bool.not_eq_true, isBlank]
  simp only [Bool.or_eq_true, Bool.and_eq_true, decide_eq_true_eq, beq_iff_eq]
  omega

namespace Spells

variable {digits : List ℕ}

theorem lt (h : Spells s digits) : ∀ d ∈ digits, d < 16 := by
  induction h with
  | nil => simp
  | cons hd _ ih => exact List.forall_mem_cons.2 ⟨(hexDigit?_eq_some hd).1, ih⟩

theorem addDigits?_eq {add : Leading → ℕ → Leading} {a : Leading} (h : Spells s digits) :
    Leading.addDigits? add a s = some (digits.foldl add a) := by
  induction h generalizing a with
  | nil => rfl
  | cons hd _ ih =>
    simp only [Leading.addDigits?, List.foldlM_cons, hd, Option.map_some, Option.bind_eq_bind,
      Option.bind_some] at ih ⊢
    exact ih

theorem of_addDigits? {add : Leading → ℕ → Leading} {a b : Leading}
    (h : Leading.addDigits? add a s = some b) : ∃ digits, Spells s digits := by
  induction s generalizing a with
  | nil => exact ⟨[], .nil⟩
  | cons c s ih =>
    simp only [Leading.addDigits?, List.foldlM_cons, Option.bind_eq_bind, Option.bind_eq_some_iff,
      Option.map_eq_some_iff] at h
    obtain ⟨a', ⟨d, hd, rfl⟩, h⟩ := h
    obtain ⟨digits, hs⟩ := ih h
    exact ⟨d :: digits, .cons hd hs⟩

end Spells

theorem exists_spells : (∃ digits, Spells s digits) ↔ ∀ c ∈ s, isHexDigit c = true := by
  simp only [← isSome_hexDigit?, Option.isSome_iff_exists]
  constructor
  · rintro ⟨digits, h⟩
    induction h with
    | nil => exact List.forall_mem_nil _
    | cons hd _ ih => exact List.forall_mem_cons.2 ⟨⟨_, hd⟩, ih⟩
  · intro h
    induction s with
    | nil => exact ⟨[], .nil⟩
    | cons c s ih =>
      obtain ⟨⟨d, hd⟩, hs⟩ := List.forall_mem_cons.1 h
      obtain ⟨digits, hdigits⟩ := ih hs
      exact ⟨d :: digits, .cons hd hdigits⟩

theorem exists_isMantissa : (∃ whole places, IsMantissa s whole places) ↔
    IsPointed isHexDigit s := by
  constructor
  · rintro ⟨whole, places, a, b, ha, hb, hne, hs⟩
    refine ⟨a, b, ?_, List.forall_mem_append.2 ⟨exists_spells.1 ⟨_, ha⟩, exists_spells.1 ⟨_, hb⟩⟩,
      hs.imp_right ?_⟩
    · rwa [ne_eq, List.append_eq_nil_iff, not_and_or]
    · rintro ⟨rfl, rfl⟩
      rw [List.append_nil]
  · rintro ⟨a, b, hne, hd, rfl | rfl⟩
    · obtain ⟨ha, hb⟩ := List.forall_mem_append.1 hd
      obtain ⟨whole, ha⟩ := exists_spells.2 ha
      obtain ⟨places, hb⟩ := exists_spells.2 hb
      rw [ne_eq, List.append_eq_nil_iff, not_and_or] at hne
      exact ⟨whole, places, a, b, ha, hb, hne, .inl rfl⟩
    · obtain ⟨whole, h⟩ := exists_spells.2 hd
      exact ⟨whole, [], a ++ b, [], h, .nil, .inl hne, .inr ⟨rfl, rfl⟩⟩

namespace IsMantissa

theorem isPointed (h : IsMantissa s whole places) : IsPointed isHexDigit s :=
  exists_isMantissa.1 ⟨_, _, h⟩

theorem length_le (h : IsMantissa s whole places) : whole.length + places.length ≤ s.length := by
  obtain ⟨a, b, ha, hb, -, hs⟩ := h
  rw [← List.Forall₂.length_eq ha, ← List.Forall₂.length_eq hb]
  rcases hs with rfl | ⟨rfl, rfl⟩
  · rw [List.length_append, List.length_cons]
    omega
  · rw [List.length_nil, Nat.add_zero]

theorem parts_eq (h : IsMantissa s whole places) : ∃ a b, (cut? '.' s).getD (s, []) = (a, b) ∧
    Spells a whole ∧ Spells b places ∧ ¬ (a = [] ∧ b = []) := by
  obtain ⟨a, b, ha, hb, hne, hs⟩ := h
  have hp : '.' ∉ a := fun hp ↦ absurd (exists_spells.1 ⟨_, ha⟩ _ hp) (by decide)
  refine ⟨a, b, ?_, ha, hb, not_and_or.2 hne⟩
  rcases hs with rfl | ⟨rfl, rfl⟩
  · rw [cut?_append hp, Option.getD_some]
  · rw [cut?_eq_none.2 hp, Option.getD_none]

theorem of_parts {a b : List Char} (h : (cut? '.' s).getD (s, []) = (a, b)) (ha : Spells a whole)
    (hb : Spells b places) (hne : ¬ (a = [] ∧ b = [])) : IsMantissa s whole places := by
  refine ⟨a, b, ha, hb, not_and_or.1 hne, ?_⟩
  cases hcut : cut? '.' s with
  | none =>
    rw [hcut, Option.getD_none] at h
    cases h
    exact .inr ⟨rfl, rfl⟩
  | some p =>
    obtain ⟨a', b'⟩ := p
    rw [hcut, Option.getD_some] at h
    cases h
    exact .inl (cut?_eq_some hcut).1

end IsMantissa

namespace Clamped

theorem of_fits {n : ℤ} (h : saturate n = n) : Clamped n n where
  fits := h
  eq _ _ := rfl
  high h := h
  low h := h

theorem neg {n k : ℤ} (h : Clamped n k) (hn : 0 ≤ n) (hk : 0 ≤ k) : Clamped (-n) (-k) where
  fits := by
    have hb := Leading.saturate_bounds n
    rw [h.fits] at hb
    exact saturate_of_le (by omega) (by omega)
  eq hl hu := by rw [h.eq (by omega) (by omega)]
  high hk' := by omega
  low hk' := by
    have := h.high (by omega)
    omega

theorem natural (k : ℕ) :
    Clamped (if Numeral.fits64 k then (k : ℤ) else UInt32.size - 1) k := by
  have hk : Numeral.fits64 k = true ↔ (k : ℤ) < 2 ^ 63 := by
    rw [fits64_iff]
    omega
  have hs : (UInt32.size - 1 : ℤ) = 2 ^ 32 - 1 := by norm_num [UInt32.size]
  by_cases hf : Numeral.fits64 k = true
  · rw [if_pos hf]
    exact of_fits (saturate_of_le (by omega) (hk.1 hf))
  · rw [if_neg hf, hs]
    rw [hk] at hf
    exact {
      fits := saturate_of_le (by norm_num) (by norm_num)
      eq := fun _ hu ↦ absurd hu (by omega)
      high := fun _ ↦ le_rfl
      low := fun hl ↦ absurd hl (by omega) }

end Clamped

theorem exponent?_eq (h : Numeral.integer? t = some e) : ∃ n, exponent? t = some n ∧
    Clamped n e := by
  obtain ⟨k, hk, rfl⟩ := Option.map_eq_some_iff.1 h
  refine ⟨_, by rw [exponent?, hk, Option.map_some], ?_⟩
  have hc := Clamped.natural k
  cases (sign t).1 with
  | true =>
    refine hc.neg ?_ (Int.natCast_nonneg k)
    split
    · exact Int.natCast_nonneg k
    · norm_num [UInt32.size]
  | false => exact hc

theorem of_exponent? {n : ℤ} (h : exponent? t = some n) : ∃ e, Numeral.integer? t = some e := by
  obtain ⟨k, hk, -⟩ := Option.map_eq_some_iff.1 h
  exact ⟨_, by rw [Numeral.integer?, hk, Option.map_some]⟩

theorem exists_isPower : (∃ e, IsPower s e) ↔
    s = [] ∨ ∃ mark ∈ signs, ∃ digits, s = 'p' :: (mark ++ digits) ∧ IsDigits digits := by
  constructor
  · rintro ⟨e, ⟨rfl, -⟩ | ⟨t, rfl, ht⟩⟩
    · exact .inl rfl
    · obtain ⟨mark, hmark, digits, rfl, hd⟩ := isSome_integer?.1 (Option.isSome_of_eq_some ht)
      exact .inr ⟨mark, hmark, digits, rfl, hd⟩
  · rintro (rfl | ⟨mark, hmark, digits, rfl, hd⟩)
    · exact ⟨0, .inl ⟨rfl, rfl⟩⟩
    · obtain ⟨e, he⟩ := Option.isSome_iff_exists.1 (isSome_integer?.2 ⟨mark, hmark, digits, rfl, hd⟩)
      exact ⟨e, .inr ⟨_, rfl, he⟩⟩

theorem scaled?_eq_some {exponent? : List Char → Option ℤ} {letter : Char} {n : ℤ} :
    scaled? exponent? letter s = some (mantissa, n) ↔ letter ∉ mantissa ∧
      (s = mantissa ∧ n = 0 ∨ ∃ t, s = mantissa ++ letter :: t ∧ exponent? t = some n) := by
  constructor
  · intro h
    rw [scaled?] at h
    split at h
    · next hcut =>
      cases h
      exact ⟨cut?_eq_none.1 hcut, .inl ⟨rfl, rfl⟩⟩
    · next a t hcut =>
      obtain ⟨e, he, hp⟩ := Option.map_eq_some_iff.1 h
      cases hp
      obtain ⟨hs, hm⟩ := cut?_eq_some hcut
      exact ⟨hm, .inr ⟨t, hs, he⟩⟩
  · rintro ⟨hm, ⟨rfl, rfl⟩ | ⟨t, rfl, ht⟩⟩
    · rw [scaled?, cut?_eq_none.2 hm]
    · rw [scaled?, cut?_append hm]
      simp only [ht, Option.map_some]

namespace IsPower

theorem scaled?_eq (h : IsPower power e) (hm : 'p' ∉ mantissa) : ∃ n, Clamped n e ∧
    scaled? exponent? 'p' (mantissa ++ power) = some (mantissa, n) := by
  rcases h with ⟨rfl, rfl⟩ | ⟨t, rfl, ht⟩
  · exact ⟨0, .of_fits (by rfl), scaled?_eq_some.2 ⟨hm, .inl ⟨List.append_nil _, rfl⟩⟩⟩
  · obtain ⟨n, hn, hc⟩ := exponent?_eq ht
    exact ⟨n, hc, scaled?_eq_some.2 ⟨hm, .inr ⟨t, rfl, hn⟩⟩⟩

theorem of_scaled? {n : ℤ} (h : scaled? exponent? 'p' s = some (mantissa, n)) :
    ∃ power e, s = mantissa ++ power ∧ IsPower power e := by
  obtain ⟨-, ⟨rfl, -⟩ | ⟨t, rfl, ht⟩⟩ := scaled?_eq_some.1 h
  · exact ⟨[], 0, (List.append_nil _).symm, .inl ⟨rfl, rfl⟩⟩
  · obtain ⟨e, he⟩ := of_exponent? ht
    exact ⟨'p' :: t, e, rfl, .inr ⟨t, rfl, he⟩⟩

end IsPower

theorem isPointed_or_hasExponent (hm : IsMantissa mantissa whole places) (hp : IsPower power e) :
    IsPointed isHexDigit (mantissa ++ power) ∨
      HasExponent isHexDigit 'p' signs (mantissa ++ power) := by
  rcases exists_isPower.1 ⟨e, hp⟩ with rfl | ⟨mark, hmark, digits, rfl, hd⟩
  · rw [List.append_nil]
    exact .inl hm.isPointed
  · exact .inr ⟨mantissa, mark, hmark, digits, rfl, hm.isPointed, hd⟩

/-- Without its mark the text is found again, since an `x` is no digit. -/
theorem unmarked_append (hk : mark = [] ∨ mark = ['0', 'x'])
    (hm : IsMantissa mantissa whole places) (hp : IsPower power e) :
    unmarked (mark ++ (mantissa ++ power)) = mantissa ++ power := by
  rcases hk with rfl | rfl
  · rw [List.nil_append, unmarked]
    intro r hr
    have hx := of_mem_unmarked (c := 'x') (isPointed_or_hasExponent hm hp) (by simp [hr])
    exact absurd hx (by decide)
  · rfl

theorem exists_unmarked (s : List Char) :
    ∃ mark, s = mark ++ unmarked s ∧ (mark = [] ∨ mark = ['0', 'x']) := by
  rw [unmarked.eq_def]
  split
  · exact ⟨['0', 'x'], rfl, .inr rfl⟩
  · exact ⟨[], rfl, .inl rfl⟩

theorem exists_isHexadecimal : (∃ v, IsHexadecimal s v) ↔ IsHexNotation s := by
  constructor
  · rintro ⟨_, start, mantissa, power, whole, places, e, rfl, hstart, hm, hp, -⟩
    exact ⟨start, _, rfl, hstart, isPointed_or_hasExponent hm hp⟩
  · rintro ⟨start, t, rfl, hstart, hm | ⟨mantissa, mark, hmark, digits, rfl, hm, hd⟩⟩
    · obtain ⟨whole, places, hm⟩ := exists_isMantissa.2 hm
      obtain ⟨e, hp⟩ := exists_isPower.2 (.inl rfl)
      exact ⟨_, start, t, [], whole, places, e, by rw [List.append_nil], hstart, hm, hp, rfl⟩
    · obtain ⟨whole, places, hm⟩ := exists_isMantissa.2 hm
      obtain ⟨e, hp⟩ := exists_isPower.2 (.inr ⟨mark, hmark, digits, rfl, hd⟩)
      exact ⟨_, start, mantissa, _, whole, places, e, rfl, hstart, hm, hp, rfl⟩

namespace IsHexadecimal

variable {v : ℚ}

theorem hexMagnitude?_eq (h : IsHexadecimal s v) : ∃ (whole places : List ℕ) (n e : ℤ),
    hexMagnitude? s = some (places.foldl Leading.addPlace
      (whole.foldl Leading.addWhole { scale := n })).round ∧
    (∀ d ∈ whole, d < 16) ∧ (∀ d ∈ places, d < 16) ∧ whole.length + places.length ≤ s.length ∧
    Clamped n e ∧ v = hexValue (whole ++ places) * 2 ^ (e - 4 * places.length : ℤ) := by
  obtain ⟨mark, mantissa, power, whole, places, e, rfl, hk, hm, hp, rfl⟩ := h
  obtain ⟨n, hn, hs⟩ := hp.scaled?_eq (hm.isPointed.not_mem (by decide) (by decide))
  obtain ⟨a, b, hab, ha, hb, hne⟩ := hm.parts_eq
  refine ⟨whole, places, n, e, ?_, ha.lt, hb.lt, ?_, hn, rfl⟩
  · simp only [hexMagnitude?, unmarked_append hk hm hp, hs, hab, hne, ha.addDigits?_eq,
      hb.addDigits?_eq, Option.bind_eq_bind, Option.bind_some, ↓reduceIte]
    rfl
  · have := hm.length_le
    simp only [List.length_append]
    omega

theorem hexMagnitude?_roundsTo (h : IsHexadecimal s v) (hl : s.length < 2 ^ 28) (negative : Bool) :
    ∃ m, hexMagnitude? s = some m ∧
      RoundsTo negative (signed negative * v) (ofMagnitude negative m) := by
  obtain ⟨whole, places, n, e, hs, hw, hp, hlength, hn, rfl⟩ := h.hexMagnitude?_eq
  exact ⟨_, hs, digits_roundsTo hw hp (hlength.trans_lt hl) hn negative⟩

theorem of_hexMagnitude? {m : ℕ} (h : hexMagnitude? s = some m) : ∃ v, IsHexadecimal s v := by
  obtain ⟨mark, hs, hk⟩ := exists_unmarked s
  rw [hexMagnitude?] at h
  simp only [Option.bind_eq_bind, Option.bind_eq_some_iff] at h
  obtain ⟨⟨mantissa, n⟩, hscaled, h⟩ := h
  obtain ⟨power, e, hu, hp⟩ := IsPower.of_scaled? hscaled
  cases hparts : (cut? '.' mantissa).getD (mantissa, []) with
  | mk a b =>
    simp only [hparts] at h
    split at h
    · cases h
    · next hne =>
      simp only [Option.pure_def, Option.bind_eq_some_iff] at h
      obtain ⟨_, hw, _, hb, -⟩ := h
      obtain ⟨whole, hw⟩ := Spells.of_addDigits? hw
      obtain ⟨places, hb⟩ := Spells.of_addDigits? hb
      exact ⟨_, mark, mantissa, power, whole, places, e, by rw [← hu, ← hs], hk,
        .of_parts hparts hw hb hne, hp, rfl⟩

theorem isHexNotation (h : IsHexadecimal s v) : IsHexNotation s := exists_isHexadecimal.1 ⟨v, h⟩

theorem not_isBlank (h : IsHexadecimal s v) (hc : c ∈ s) : isBlank c = false := by
  rcases h.isHexNotation.of_mem hc with hd | hc
  · exact isBlank_of_isHexDigit hd
  · simp only [List.mem_cons, List.not_mem_nil, or_false] at hc
    rcases hc with rfl | rfl | rfl | rfl | rfl
    all_goals rfl

end IsHexadecimal

/-- The words for an infinity and for no number, in any case and with any sign. -/
def IsWord (s : List Char) : Prop :=
  (sign (trim s)).2.map Char.toLower = ['i', 'n', 'f'] ∨
    (sign (trim s)).2.map Char.toLower = ['i', 'n', 'f', 'i', 'n', 'i', 't', 'y'] ∨
    (sign (trim s)).2.map Char.toLower = ['n', 'a', 'n']

namespace HexNumeral

variable {negative : Bool} {q : ℚ} {x : Binary64}

theorem exists_readHex? (h : HexNumeral s negative q) (hl : s.length < 2 ^ 28) :
    ∃ x, readHex? s = some x ∧ RoundsTo negative q x := by
  obtain ⟨before, mark, t, after, v, rfl, hb, ha, hmark, ht, rfl⟩ := h
  have hblank : ∀ c ∈ mark ++ t, isBlank c = false := by
    intro c hc
    rcases List.mem_append.1 hc with hc | hc
    · rcases hmark with ⟨-, rfl⟩ | ⟨-, rfl | rfl⟩
      · rw [List.mem_singleton.1 hc]
        rfl
      · cases hc
      · rw [List.mem_singleton.1 hc]
        rfl
    · have hlower := ht.not_isBlank (List.mem_map_of_mem hc)
      by_contra hb
      rw [Bool.not_eq_false] at hb
      rw [toLower_of_isBlank hb, hb] at hlower
      cases hlower
  have hne : t ≠ [] := fun h ↦ ht.isHexNotation.ne_nil (by rw [h, List.map_nil])
  have htrim : trim (before ++ (mark ++ t) ++ after) = mark ++ t :=
    trim_append hb ha hblank (by simp [hne])
  have hsign : sign (mark ++ t) = (negative, t) :=
    sign_append_lower hmark (Signless.isHexNotation _ ht.isHexNotation)
  have hlength : (t.map Char.toLower).length < 2 ^ 28 := by
    simp only [List.length_append, List.length_map] at hl ⊢
    omega
  obtain ⟨m, hm, hr⟩ := ht.hexMagnitude?_roundsTo hlength negative
  have hword : ∀ w : List Char, 'n' ∈ w → t.map Char.toLower ≠ w := by
    rintro w hw rfl
    exact ht.isHexNotation.n_not_mem hw
  refine ⟨ofMagnitude negative m, ?_, hr⟩
  rw [readHex?, htrim, readWith?, hsign, if_neg, if_neg, hm, Option.map_some]
  · exact hword _ (by decide)
  · exact not_or.2 ⟨hword _ (by decide), hword _ (by decide)⟩

theorem of_readHex? (h : readHex? s = some x) :
    IsWord s ∨ ∃ negative q, HexNumeral s negative q := by
  obtain ⟨before, after, hs, hb, ha⟩ := exists_trim s
  obtain ⟨mark, ht, hmark⟩ := exists_sign (trim s)
  rw [readHex?, readWith?] at h
  split at h
  · next hw => exact .inl (hw.imp_right .inl)
  split at h
  · next hw => exact .inl (.inr (.inr hw))
  · obtain ⟨m, hm, -⟩ := Option.map_eq_some_iff.1 h
    obtain ⟨v, hv⟩ := IsHexadecimal.of_hexMagnitude? hm
    exact .inr ⟨(sign (trim s)).1, _, before, mark, (sign (trim s)).2, after, v, by rw [← ht, ← hs],
      hb, ha, hmark, hv, rfl⟩

end HexNumeral

/-- What is read is the one correctly rounded number, and nothing else is read but the words. -/
theorem readHex?_roundsTo {s : List Char} (hl : s.length < 2 ^ 28) :
    (∀ negative q, HexNumeral s negative q → ∃ x, readHex? s = some x ∧ RoundsTo negative q x ∧
      ∀ y, RoundsTo negative q y → y = x) ∧
    ∀ x, readHex? s = some x → IsWord s ∨ ∃ negative q, HexNumeral s negative q := by
  refine ⟨fun negative q h ↦ ?_, fun x h ↦ HexNumeral.of_readHex? h⟩
  obtain ⟨x, hx, hr⟩ := h.exists_readHex? hl
  exact ⟨x, hx, hr, fun y hy ↦ hy.unique hr⟩

theorem readHex?_roundsTo_tie : " -0X1.8p-1074".toList.length < 2 ^ 28 ∧
    HexNumeral " -0X1.8p-1074".toList true (signed true * (24 * 2 ^ (-1078 : ℤ))) ∧
    RoundsTo true (signed true * (24 * 2 ^ (-1078 : ℤ))) (ofMagnitude true 2) := by
  have hl : " -0X1.8p-1074".toList.length < 2 ^ 28 := by decide
  have hm : IsMantissa ['1', '.', '8'] [1] [8] :=
    ⟨['1'], ['8'], .cons rfl .nil, .cons rfl .nil, .inl (by simp), .inl rfl⟩
  have hp : IsPower ['p', '-', '1', '0', '7', '4'] (-1074) := .inr ⟨_, rfl, by decide⟩
  have h : HexNumeral " -0X1.8p-1074".toList true (signed true * (24 * 2 ^ (-1078 : ℤ))) :=
    ⟨[' '], ['-'], "0X1.8p-1074".toList, [], _, by decide, List.forall_mem_singleton.2 rfl,
      List.forall_mem_nil _, .inl ⟨rfl, rfl⟩,
      ⟨['0', 'x'], _, _, _, _, _, by decide, .inr rfl, hm, hp, by norm_num [hexValue]⟩, rfl⟩
  obtain ⟨x, hx, hr, -⟩ := (readHex?_roundsTo hl).1 _ _ h
  have hread : readHex? " -0X1.8p-1074".toList = some (ofMagnitude true 2) := by decide +kernel
  rw [hread] at hx
  cases hx
  exact ⟨hl, h, hr⟩

end ThreeAddress.Binary64
