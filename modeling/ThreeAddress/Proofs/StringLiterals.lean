import ThreeAddress.Proofs.Spelling

namespace ThreeAddress

namespace Text.Escaped

/-- What stands for a character: itself, or a backslash and its code in three decimal digits. -/
inductive Denotes : List Char → Char → Prop
  | verbatim {c : Char} : isBlank c = false → c ≠ '#' → c ≠ '\\' → Denotes [c] c
  | escape {a b c d : Char} : a.isDigit = true → b.isDigit = true → c.isDigit = true →
      d.toNat = Nat.ofDigitChars 10 [a, b, c] 0 → Denotes ['\\', a, b, c] d

/-- A text falls into units, each of which stands for a character. -/
def Spelled (s t : List Char) : Prop := ∃ units, s = units.flatten ∧ List.Forall₂ Denotes units t

variable {c : Char} {s t u : List Char}

theorem Denotes.decode_append (h : Denotes u c) (s : List Char) :
    decode (u ++ s) = (decode s).map (c :: ·) := by
  cases h with
  | verbatim hb hs hc =>
    rw [List.singleton_append, decode_cons hc, isRefused, hb, beq_eq_false_iff_ne.2 hs, Bool.or_self,
      if_neg Bool.false_ne_true]
  | escape ha hb hd hc =>
    obtain rfl := Char.toNat_inj.1 ((toNat_ofDigits ha hb hd).trans hc.symm)
    simp only [List.cons_append, List.nil_append, decode, ha, hb, hd, Bool.and_self, ↓reduceIte]

namespace Spelled

theorem nil : Spelled [] [] := ⟨[], rfl, .nil⟩

theorem cons (hu : Denotes u c) (h : Spelled s t) : Spelled (u ++ s) (c :: t) := by
  obtain ⟨units, rfl, hs⟩ := h
  exact ⟨u :: units, List.flatten_cons.symm, .cons hu hs⟩

theorem decode_eq (h : Spelled s t) : decode s = some t := by
  obtain ⟨units, rfl, hs⟩ := h
  induction hs with
  | nil => rfl
  | cons hu _ ih => rw [List.flatten_cons, hu.decode_append, ih, Option.map_some]

theorem of_decode (h : decode s = some t) : Spelled s t := by
  induction s using decode.induct generalizing t with
  | case1 =>
    cases h
    exact nil
  | case2 a b d s hdigits ih =>
    rw [decode, if_pos hdigits] at h
    obtain ⟨t', ht, rfl⟩ := Option.map_eq_some_iff.1 h
    simp only [Bool.and_eq_true] at hdigits
    obtain ⟨⟨ha, hb⟩, hd⟩ := hdigits
    exact cons (.escape ha hb hd (toNat_ofDigits ha hb hd)) (ih ht)
  | case3 a b d s hdigits =>
    rw [decode, if_neg hdigits] at h
    cases h
  | case4 c s hc hr =>
    rw [decode, if_pos hr] at h
    · cases h
    · exact hc
  | case5 c s hc hr ih =>
    rw [decode, if_neg hr] at h
    · obtain ⟨t', ht, rfl⟩ := Option.map_eq_some_iff.1 h
      simp only [Bool.or_eq_true, decide_eq_true_eq, not_or, Bool.not_eq_true] at hr
      obtain ⟨⟨hb, hs⟩, hw⟩ := hr
      exact cons (.verbatim hw hs hb) (ih ht)
    · exact hc

end Spelled

theorem decode_eq_some : decode s = some t ↔ Spelled s t :=
  ⟨Spelled.of_decode, Spelled.decode_eq⟩

theorem Spelled.not_far (h : Spelled s t) : ∀ c ∈ t, isFarBlank c = false := by
  intro c hc
  exact Bool.eq_false_iff.2 (List.any_eq_false.1 (any_isFarBlank_of_decode h.decode_eq) c hc)

theorem spelled_encode (h : ∀ c ∈ t, isFarBlank c = false) : Spelled (encode t) t := by
  have ha : t.any isFarBlank = false :=
    List.any_eq_false.2 fun c hc ↦ Bool.eq_false_iff.1 (h c hc)
  rw [← decode_eq_some, decode_encode, ha, if_neg Bool.false_ne_true]

end Text.Escaped

namespace Argument

open Text Escaped

variable {text value : String}

theorem decode_string_eq_ok : decode text .string = .ok (.literal (.string value)) ↔
    Spelled text.toList value.toList := by
  rw [← decode_eq_some, decode, literalOr_eq_ok]
  constructor
  · rintro ⟨x, hx, hv⟩
    obtain ⟨s, hs, rfl⟩ := Option.map_eq_some_iff.1 hx
    cases hv
    rw [hs, String.toList_ofList]
  · intro h
    exact ⟨.string value, by rw [h, Option.map_some, String.ofList_toList], rfl⟩

theorem decode_string_eq_error :
    decode text .string = .error (.invalidString text) ↔ ∀ s, ¬ Spelled text.toList s := by
  simp only [← decode_eq_some]
  rw [decode]
  cases hd : Escaped.decode text.toList with
  | none => simp [literalOr]
  | some s => simp [literalOr]

/-- A string literal is a sequence of units that stand for its characters, and any other text is
refused as it is. The strings that can be written are those without far blanks, and each of them is
written by its escaped form. -/
theorem string_literals (text value : String) :
    (decode text .string = .ok (.literal (.string value)) ↔
      Spelled text.toList value.toList) ∧
    (decode text .string = .error (.invalidString text) ↔ ∀ s, ¬ Spelled text.toList s) ∧
    ((∃ t, decode t .string = .ok (.literal (.string value))) ↔
      ∀ c ∈ value.toList, isFarBlank c = false) ∧
    (decode (String.ofList (encode value.toList)) .string = .ok (.literal (.string value)) ↔
      ∀ c ∈ value.toList, isFarBlank c = false) := by
  have hencode : decode (String.ofList (encode value.toList)) .string =
      .ok (.literal (.string value)) ↔ ∀ c ∈ value.toList, isFarBlank c = false := by
    rw [decode_string_eq_ok, String.toList_ofList]
    exact ⟨Spelled.not_far, spelled_encode⟩
  refine ⟨decode_string_eq_ok, decode_string_eq_error, ⟨?_, fun h ↦ ⟨_, hencode.2 h⟩⟩, hencode⟩
  rintro ⟨t, ht⟩
  exact (decode_string_eq_ok.1 ht).not_far

/-- An escape takes three digits and no more. -/
example : decode "\\2820" .string = .ok (.literal (.string "\u011a0")) := by decide +kernel

end Argument

end ThreeAddress
