import Mathlib.Data.List.Basic
import ThreeAddress.Proofs.Text.Numeral

namespace ThreeAddress.Binary64

open Text Numeral

def isHexDigit (c : Char) : Bool :=
  c.isDigit || decide ('a' ≤ c ∧ c ≤ 'f') || decide ('A' ≤ c ∧ c ≤ 'F')

/-- At least one digit, and at most one point before, between or after the digits. -/
def IsPointed (digit : Char → Bool) (s : List Char) : Prop :=
  ∃ a b, a ++ b ≠ [] ∧ (∀ c ∈ a ++ b, digit c = true) ∧ (s = a ++ '.' :: b ∨ s = a ++ b)

/-- An exponent follows the digits: its letter, one of the given signs and decimal digits. -/
def HasExponent (digit : Char → Bool) (letter : Char) (marks : List (List Char)) (s : List Char) :
    Prop :=
  ∃ mantissa, ∃ mark ∈ marks, ∃ digits, s = mantissa ++ letter :: (mark ++ digits) ∧
    IsPointed digit mantissa ∧ IsDigits digits

/-- Hexadecimal notation without a sign, in lower case. -/
def IsHexNotation (s : List Char) : Prop :=
  ∃ start t, s = start ++ t ∧ (start = [] ∨ start = ['0', 'x']) ∧
    (IsPointed isHexDigit t ∨ HasExponent isHexDigit 'p' signs t)

/-- Decimal notation without a sign, in lower case. -/
def IsDecimalNotation (s : List Char) : Prop :=
  IsPointed Char.isDigit s ∨ HasExponent Char.isDigit 'e' signs s

/-- Decimal notation that has no exponent, or one without a sign. -/
def IsPlainDecimal (s : List Char) : Prop :=
  IsPointed Char.isDigit s ∨ HasExponent Char.isDigit 'e' [[]] s

/-- Decimal notation whose exponent has a sign. -/
def HasSignedExponent (s : List Char) : Prop :=
  HasExponent Char.isDigit 'e' [['+'], ['-']] s

def IsKeyword (s : List Char) : Prop :=
  s = ['i', 'n', 'f'] ∨ s = ['i', 'n', 'f', 'i', 'n', 'i', 't', 'y'] ∨ s = ['n', 'a', 'n']

/-- Behind an optional sign and in lower case, a text is one of those that `P` holds of. -/
def Signed (P : List Char → Prop) (s : List Char) : Prop :=
  ∃ mark ∈ signs, ∃ t, s = mark ++ t ∧ P (t.map Char.toLower)

variable {s t : List Char} {c letter : Char} {digit digit' : Char → Bool} {marks : List (List Char)}

theorem isSome_hexDigit? (c : Char) : (hexDigit? c).isSome = isHexDigit c := by
  rw [hexDigit?, isHexDigit]
  split_ifs with hd hl hu
  · rw [hd, Bool.true_or, Bool.true_or, Option.isSome_some]
  · rw [decide_eq_true hl, Bool.or_true, Bool.true_or, Option.isSome_some]
  · rw [decide_eq_true hu, Bool.or_true, Option.isSome_some]
  · rw [Bool.eq_false_iff.2 hd, decide_eq_false hl, decide_eq_false hu]
    rfl

theorem isHexDigit_of_isDigit (h : c.isDigit = true) : isHexDigit c = true := by
  rw [isHexDigit, h]
  rfl

namespace IsPointed

theorem ne_nil (h : IsPointed digit s) : s ≠ [] := by
  obtain ⟨a, b, hne, -, rfl | rfl⟩ := h
  · simp
  · exact hne

theorem of_mem (h : IsPointed digit s) (hc : c ∈ s) : digit c = true ∨ c = '.' := by
  obtain ⟨a, b, -, hd, rfl | rfl⟩ := h
  · rcases List.mem_append.1 hc with hc | hc
    · exact .inl (hd c (List.mem_append_left b hc))
    · exact (List.mem_cons.1 hc).symm.imp_left fun hc ↦ hd c (List.mem_append_right a hc)
  · exact .inl (hd c hc)

theorem not_mem (h : IsPointed digit s) (hd : digit c = false) (hp : c ≠ '.') : c ∉ s := by
  intro hc
  rcases h.of_mem hc with hc | hc
  · rw [hd] at hc
    cases hc
  · exact hp hc

theorem mono (h : IsPointed digit s) (hd : ∀ c, digit c = true → digit' c = true) :
    IsPointed digit' s := by
  obtain ⟨a, b, hne, ha, hs⟩ := h
  exact ⟨a, b, hne, fun c hc ↦ hd c (ha c hc), hs⟩

theorem append (h : IsPointed digit s) (ht : ∀ c ∈ t, digit c = true) :
    IsPointed digit (s ++ t) := by
  obtain ⟨a, b, hne, hd, hs⟩ := h
  refine ⟨a, b ++ t, ?_, ?_, ?_⟩
  · rw [← List.append_assoc]
    exact List.append_ne_nil_of_left_ne_nil hne t
  · rw [← List.append_assoc, List.forall_mem_append]
    exact ⟨hd, ht⟩
  · rcases hs with rfl | rfl
    · exact .inl (by rw [List.append_assoc, List.cons_append])
    · exact .inr (List.append_assoc ..)

end IsPointed

theorem hasExponent_append {marks' : List (List Char)} :
    HasExponent digit letter (marks ++ marks') s ↔
      HasExponent digit letter marks s ∨ HasExponent digit letter marks' s := by
  constructor
  · rintro ⟨mantissa, mark, hmark, h⟩
    rcases List.mem_append.1 hmark with hmark | hmark
    · exact .inl ⟨mantissa, mark, hmark, h⟩
    · exact .inr ⟨mantissa, mark, hmark, h⟩
  · rintro (⟨mantissa, mark, hmark, h⟩ | ⟨mantissa, mark, hmark, h⟩)
    · exact ⟨mantissa, mark, List.mem_append_left _ hmark, h⟩
    · exact ⟨mantissa, mark, List.mem_append_right _ hmark, h⟩

theorem HasExponent.of_mem (h : HasExponent digit letter marks s) (hc : c ∈ s) :
    digit c = true ∨ c = '.' ∨ c = letter ∨ c ∈ marks.flatten ∨ c.isDigit = true := by
  obtain ⟨mantissa, mark, hmark, digits, rfl, hm, hd⟩ := h
  rw [List.mem_append, List.mem_cons, List.mem_append] at hc
  rcases hc with hc | rfl | hc | hc
  · exact (hm.of_mem hc).imp_right .inl
  · exact .inr (.inr (.inl rfl))
  · exact .inr (.inr (.inr (.inl (List.mem_flatten_of_mem hmark hc))))
  · exact .inr (.inr (.inr (.inr (hd.2 c hc))))

/-- What stands in hexadecimal notation, but for its start. -/
theorem of_mem_unmarked (h : IsPointed isHexDigit s ∨ HasExponent isHexDigit 'p' signs s)
    (hc : c ∈ s) : isHexDigit c = true ∨ c ∈ ['.', 'p', '+', '-'] := by
  rcases h with h | h
  · refine (h.of_mem hc).imp_right ?_
    rintro rfl
    decide
  · rcases h.of_mem hc with hd | rfl | rfl | hs | hd
    · exact .inl hd
    · exact .inr (by decide)
    · exact .inr (by decide)
    · exact .inr (.tail _ (.tail _ hs))
    · exact .inl (isHexDigit_of_isDigit hd)

namespace IsHexNotation

theorem of_mem (h : IsHexNotation s) (hc : c ∈ s) :
    isHexDigit c = true ∨ c ∈ ['x', '.', 'p', '+', '-'] := by
  obtain ⟨start, t, rfl, hstart, ht⟩ := h
  rcases List.mem_append.1 hc with hc | hc
  · rcases hstart with rfl | rfl
    · cases hc
    · rcases List.mem_pair.1 hc with rfl | rfl
      · exact .inl (by decide)
      · exact .inr (by decide)
  · exact (of_mem_unmarked ht hc).imp_right (.tail _)

theorem ne_nil (h : IsHexNotation s) : s ≠ [] := by
  obtain ⟨start, t, rfl, -, ht | ⟨mantissa, mark, -, digits, rfl, -⟩⟩ := h
  · exact List.append_ne_nil_of_right_ne_nil start ht.ne_nil
  · simp

theorem n_not_mem (h : IsHexNotation s) : 'n' ∉ s := by
  intro hc
  rcases h.of_mem hc with hd | hc
  · cases hd
  · exact absurd hc (by decide)

/-- A sign stands nowhere but in an exponent. -/
theorem p_mem (h : IsHexNotation s) (hs : '+' ∈ s ∨ '-' ∈ s) : 'p' ∈ s := by
  obtain ⟨start, t, rfl, hstart, ht⟩ := h
  have hs : '+' ∈ t ∨ '-' ∈ t := by
    rcases hstart with rfl | rfl
    · exact hs
    · simpa using hs
  rcases ht with ht | ⟨mantissa, mark, -, digits, rfl, -⟩
  · rcases hs with hs | hs
    · exact absurd hs (ht.not_mem (by decide) (by decide))
    · exact absurd hs (ht.not_mem (by decide) (by decide))
  · simp

end IsHexNotation

section Overlap

theorem isDecimalNotation_iff_plain_or :
    IsDecimalNotation s ↔ IsPlainDecimal s ∨ HasSignedExponent s := by
  rw [IsDecimalNotation, IsPlainDecimal, HasSignedExponent, or_assoc, ← hasExponent_append]
  exact Iff.rfl

/-- The letter of a decimal exponent is a hexadecimal digit. -/
theorem IsPlainDecimal.isHexNotation (h : IsPlainDecimal s) : IsHexNotation s := by
  refine ⟨[], s, rfl, .inl rfl, .inl ?_⟩
  rcases h with h | ⟨mantissa, mark, hmark, digits, rfl, hm, hd⟩
  · exact h.mono fun _ ↦ isHexDigit_of_isDigit
  · obtain rfl := List.mem_singleton.1 hmark
    refine (hm.mono fun _ ↦ isHexDigit_of_isDigit).append ?_
    exact List.forall_mem_cons.2 ⟨by decide, fun c hc ↦ isHexDigit_of_isDigit (hd.2 c hc)⟩

namespace HasSignedExponent

theorem sign_mem (h : HasSignedExponent s) : '+' ∈ s ∨ '-' ∈ s := by
  obtain ⟨mantissa, mark, hmark, digits, rfl, -⟩ := h
  rcases List.mem_pair.1 hmark with rfl | rfl
  · exact .inl (by simp)
  · exact .inr (by simp)

theorem not_mem (h : HasSignedExponent s) (hd : c.isDigit = false)
    (hc : c ∉ ['.', 'e', '+', '-']) : c ∉ s := by
  intro hm
  rcases HasExponent.of_mem h hm with hd' | rfl | rfl | hs | hd'
  · rw [hd] at hd'
    cases hd'
  · exact hc (by decide)
  · exact hc (by decide)
  · exact hc (.tail _ (.tail _ hs))
  · rw [hd] at hd'
    cases hd'

theorem not_isHexNotation (h : HasSignedExponent s) : ¬ IsHexNotation s :=
  fun hx ↦ h.not_mem (by decide) (by decide) (hx.p_mem h.sign_mem)

theorem not_isKeyword (h : HasSignedExponent s) : ¬ IsKeyword s := by
  have hn : 'n' ∉ s := h.not_mem (by decide) (by decide)
  rintro (rfl | rfl | rfl)
  all_goals exact hn (by decide)

end HasSignedExponent

/-- Only a decimal exponent with a sign is no hexadecimal notation. -/
theorem isDecimalNotation_and_not :
    ((IsKeyword s ∨ IsDecimalNotation s) ∧ ¬ (IsKeyword s ∨ IsHexNotation s)) ↔
      HasSignedExponent s := by
  rw [isDecimalNotation_iff_plain_or]
  constructor
  · rintro ⟨hk | hp | he, hn⟩
    · exact absurd (.inl hk) hn
    · exact absurd (.inr hp.isHexNotation) hn
    · exact he
  · intro he
    exact ⟨.inr (.inr he), not_or.2 ⟨he.not_isKeyword, he.not_isHexNotation⟩⟩

end Overlap

section Signs

/-- No text that `P` holds of starts with a sign. -/
def Signless (P : List Char → Prop) : Prop :=
  ∀ s, P s → ∀ c, s.head? = some c → c ≠ '-' ∧ c ≠ '+'

variable {P Q : List Char → Prop}

theorem signed_iff (hP : Signless P) : Signed P s ↔ P ((sign s).2.map Char.toLower) := by
  constructor
  · rintro ⟨mark, hmark, t, rfl, ht⟩
    obtain ⟨negative, hs⟩ := mem_signs.1 hmark
    rwa [sign_append_lower hs (hP _ ht)]
  · intro h
    obtain ⟨mark, hs, hmark⟩ := exists_sign s
    exact ⟨mark, mem_signs.2 ⟨_, hmark⟩, _, hs, h⟩

namespace Signless

theorem or (hP : Signless P) (hQ : Signless Q) : Signless fun s ↦ P s ∨ Q s := by
  rintro s (h | h)
  · exact hP s h
  · exact hQ s h

theorem isKeyword : Signless IsKeyword := by
  rintro s (rfl | rfl | rfl) c ⟨⟩
  all_goals decide

theorem isPointed (hminus : digit '-' = false) (hplus : digit '+' = false) :
    Signless (IsPointed digit) := by
  intro s h c hc
  have hc := List.mem_of_head? hc
  constructor
  · rintro rfl
    exact h.not_mem hminus (by decide) hc
  · rintro rfl
    exact h.not_mem hplus (by decide) hc

theorem hasExponent (hminus : digit '-' = false) (hplus : digit '+' = false) :
    Signless (HasExponent digit letter marks) := by
  rintro s ⟨mantissa, mark, -, digits, rfl, hm, -⟩ c hc
  rw [List.head?_append_of_ne_nil _ hm.ne_nil] at hc
  exact isPointed hminus hplus mantissa hm c hc

theorem isHexNotation : Signless IsHexNotation := by
  rintro s ⟨start, t, rfl, rfl | rfl, ht⟩ c hc
  · exact (isPointed (by decide) (by decide)).or (hasExponent (by decide) (by decide)) t ht c hc
  · cases hc
    decide

theorem isDecimalNotation : Signless IsDecimalNotation :=
  (isPointed (by decide) (by decide)).or (hasExponent (by decide) (by decide))

theorem isPlainDecimal : Signless IsPlainDecimal :=
  (isPointed (by decide) (by decide)).or (hasExponent (by decide) (by decide))

theorem hasSignedExponent : Signless HasSignedExponent :=
  hasExponent (by decide) (by decide)

end Signless

end Signs

end ThreeAddress.Binary64
