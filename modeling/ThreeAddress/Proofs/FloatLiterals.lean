import ThreeAddress.Loading
import ThreeAddress.Proofs.Binary64.HexNumeral

namespace ThreeAddress.Binary64

open Text Numeral

/-- What both an argument of a program and a line of the input give for a text. -/
structure TakenAs (text : String) (x : Option Binary64) : Prop where
  argument : Argument.decode text .float = literalOr (.invalidFloat text) (x.map .float)
  line : Value.ofLine "float" (some text) = .ok ((x.map .float).getD .nil)

variable {s : List Char}

theorem takenAs_read (text : String) : TakenAs text (read? text.toList) where
  argument := rfl
  line := by rw [Value.ofLine, show ReadType.ofName? "float" = some .float by decide]; rfl

theorem isPointed_iff : IsPointed Char.isDigit s ↔ IsDigits (pointed s).1 := by
  rw [pointed]
  constructor
  · rintro ⟨a, b, hne, hd, rfl | rfl⟩
    · have hp : '.' ∉ a := fun hp ↦ absurd (hd _ (List.mem_append_left b hp)) (by decide)
      rw [cut?_append hp]
      exact ⟨hne, hd⟩
    · have hp : '.' ∉ a ++ b := fun hp ↦ absurd (hd _ hp) (by decide)
      rw [cut?_eq_none.2 hp]
      exact ⟨hne, hd⟩
  · intro h
    split at h
    · exact ⟨s, [], by rw [List.append_nil]; exact h.1, by rw [List.append_nil]; exact h.2,
        .inr (List.append_nil s).symm⟩
    · next a b hcut => exact ⟨a, b, h.1, h.2, .inl (cut?_eq_some hcut).1⟩

theorem isSome_decimalMagnitude? : (decimalMagnitude? s).isSome = true ↔
    ∃ mantissa, (∃ n, scaled? integer? 'e' s = some (mantissa, n)) ∧
      IsPointed Char.isDigit mantissa := by
  simp only [decimalMagnitude?, isPointed_iff, ← isSome_natural?, Option.isSome_iff_exists,
    Option.bind_eq_bind, Option.bind_eq_some_iff, Option.pure_def, Option.some_inj]
  constructor
  · rintro ⟨_, ⟨mantissa, n⟩, hs, m, hm, -⟩
    exact ⟨mantissa, ⟨n, hs⟩, m, hm⟩
  · rintro ⟨mantissa, ⟨n, hs⟩, m, hm⟩
    exact ⟨_, (mantissa, n), hs, m, hm, rfl⟩

theorem isDecimalNotation_iff : (decimalMagnitude? s).isSome = true ↔ IsDecimalNotation s := by
  rw [isSome_decimalMagnitude?]
  constructor
  · rintro ⟨mantissa, ⟨n, hs⟩, hm⟩
    obtain ⟨-, ⟨rfl, -⟩ | ⟨t, rfl, ht⟩⟩ := scaled?_eq_some.1 hs
    · exact .inl hm
    · obtain ⟨mark, hmark, digits, rfl, hd⟩ := isSome_integer?.1 (Option.isSome_of_eq_some ht)
      exact .inr ⟨mantissa, mark, hmark, digits, rfl, hm, hd⟩
  · rintro (h | ⟨mantissa, mark, hmark, digits, rfl, hm, hd⟩)
    · have he : 'e' ∉ s := h.not_mem (by decide) (by decide)
      exact ⟨s, ⟨0, scaled?_eq_some.2 ⟨he, .inl ⟨rfl, rfl⟩⟩⟩, h⟩
    · have he : 'e' ∉ mantissa := hm.not_mem (by decide) (by decide)
      obtain ⟨n, hn⟩ := Option.isSome_iff_exists.1 (isSome_integer?.2 ⟨mark, hmark, digits, rfl, hd⟩)
      exact ⟨mantissa, ⟨n, scaled?_eq_some.2 ⟨he, .inr ⟨_, rfl, hn⟩⟩⟩, hm⟩

theorem isHexNotation_iff : (hexMagnitude? s).isSome = true ↔ IsHexNotation s := by
  rw [← exists_isHexadecimal]
  constructor
  · intro h
    obtain ⟨m, hm⟩ := Option.isSome_iff_exists.1 h
    exact IsHexadecimal.of_hexMagnitude? hm
  · rintro ⟨v, hv⟩
    obtain ⟨_, _, _, _, hm, -⟩ := hv.hexMagnitude?_eq
    rw [hm, Option.isSome_some]

theorem isSome_readWith? {magnitude? : List Char → Option ℕ} :
    (readWith? magnitude? s).isSome = true ↔ IsKeyword ((sign s).2.map Char.toLower) ∨
      (magnitude? ((sign s).2.map Char.toLower)).isSome = true := by
  rw [readWith?, IsKeyword, ← or_assoc]
  split_ifs with hinf hnan
  · simp only [hinf, true_or, Option.isSome_some]
  · simp only [hnan, or_true, true_or, Option.isSome_some]
  · simp only [hinf, hnan, or_self, false_or, Option.isSome_map]

theorem isSome_readHex? : (readHex? s).isSome = true ↔
    Signed (fun t ↦ IsKeyword t ∨ IsHexNotation t) (trim s) := by
  rw [readHex?, isSome_readWith?, isHexNotation_iff,
    signed_iff (Signless.isKeyword.or .isHexNotation)]

theorem isSome_readDecimal? : (readDecimal? s).isSome = true ↔
    Signed (fun t ↦ IsKeyword t ∨ IsDecimalNotation t) (trim s) := by
  rw [readDecimal?, isSome_readWith?, isDecimalNotation_iff,
    signed_iff (Signless.isKeyword.or .isDecimalNotation)]

theorem isSome_readDecimal?_and_not :
    readHex? s = none ∧ (readDecimal? s).isSome = true ↔ Signed HasSignedExponent (trim s) := by
  rw [← Option.not_isSome_iff_eq_none, isSome_readHex?, isSome_readDecimal?,
    signed_iff (Signless.isKeyword.or .isHexNotation),
    signed_iff (Signless.isKeyword.or .isDecimalNotation), signed_iff .hasSignedExponent, and_comm,
    isDecimalNotation_and_not]

theorem isSome_readHex?_of_isPlainDecimal (h : Signed IsPlainDecimal (trim s)) :
    (readHex? s).isSome = true := by
  rw [signed_iff .isPlainDecimal] at h
  rw [isSome_readHex?, signed_iff (Signless.isKeyword.or .isHexNotation)]
  exact .inr h.isHexNotation

/-- What is read as a number, and which of the two notations it is taken for. -/
theorem float_notation (text : String) :
    ((readHex? text.toList).isSome = true ↔
      Signed (fun s ↦ IsKeyword s ∨ IsHexNotation s) (trim text.toList)) ∧
    ((readDecimal? text.toList).isSome = true ↔
      Signed (fun s ↦ IsKeyword s ∨ IsDecimalNotation s) (trim text.toList)) ∧
    (readHex? text.toList = none ∧ (readDecimal? text.toList).isSome = true ↔
      Signed HasSignedExponent (trim text.toList)) ∧
    (Signed HasSignedExponent (trim text.toList) →
      ∃ x, readDecimal? text.toList = some x ∧ TakenAs text (some x)) ∧
    (¬ Signed HasSignedExponent (trim text.toList) → TakenAs text (readHex? text.toList)) ∧
    (Signed IsPlainDecimal (trim text.toList) →
      ∃ x, readHex? text.toList = some x ∧ TakenAs text (some x)) := by
  have htaken := takenAs_read text
  rw [read?] at htaken
  refine ⟨isSome_readHex?, isSome_readDecimal?, isSome_readDecimal?_and_not, ?_, ?_, ?_⟩
  · intro h
    obtain ⟨hnone, hsome⟩ := isSome_readDecimal?_and_not.2 h
    obtain ⟨x, hx⟩ := Option.isSome_iff_exists.1 hsome
    rw [hnone, hx, Option.none_or] at htaken
    exact ⟨x, hx, htaken⟩
  · intro h
    cases hhex : readHex? text.toList with
    | none =>
      have hdecimal : readDecimal? text.toList = none :=
        Option.not_isSome_iff_eq_none.1 fun hd ↦ h (isSome_readDecimal?_and_not.1 ⟨hhex, hd⟩)
      rwa [hhex, hdecimal, Option.none_or] at htaken
    | some x => rwa [hhex, Option.some_or] at htaken
  · intro h
    obtain ⟨x, hx⟩ := Option.isSome_iff_exists.1 (isSome_readHex?_of_isPlainDecimal h)
    rw [hx, Option.some_or] at htaken
    exact ⟨x, hx, htaken⟩

/-- Without the sign of its exponent a hundred turns into a hexadecimal number. -/
theorem float_notation_hundred :
    (Signed HasSignedExponent (trim "1e+2".toList) ∧
      TakenAs "1e+2" (some (ofMagnitude false (round 100 0)))) ∧
    Signed IsPlainDecimal (trim "1e2".toList) ∧
      TakenAs "1e2" (some (ofMagnitude false (round 482 0))) := by
  have hone : IsPointed Char.isDigit ['1'] :=
    ⟨['1'], [], by decide, List.forall_mem_singleton.2 rfl, .inr rfl⟩
  have htwo : IsDigits ['2'] := ⟨by decide, List.forall_mem_singleton.2 rfl⟩
  have hsigned : Signed HasSignedExponent (trim "1e+2".toList) :=
    ⟨[], by decide, _, rfl, ['1'], ['+'], by decide, ['2'], by decide, hone, htwo⟩
  have hplain : Signed IsPlainDecimal (trim "1e2".toList) :=
    ⟨[], by decide, _, rfl, .inr ⟨['1'], [], by decide, ['2'], by decide, hone, htwo⟩⟩
  obtain ⟨-, -, -, hdecimal, -, -⟩ := float_notation "1e+2"
  obtain ⟨-, -, -, -, -, hhex⟩ := float_notation "1e2"
  obtain ⟨x, hx, htaken⟩ := hdecimal hsigned
  obtain ⟨y, hy, htaken'⟩ := hhex hplain
  rw [show readDecimal? "1e+2".toList = some (ofMagnitude false (round 100 0)) by
    decide +kernel] at hx
  rw [show readHex? "1e2".toList = some (ofMagnitude false (round 482 0)) by
    decide +kernel] at hy
  cases hx
  cases hy
  exact ⟨⟨hsigned, htaken⟩, hplain, htaken'⟩

end ThreeAddress.Binary64
