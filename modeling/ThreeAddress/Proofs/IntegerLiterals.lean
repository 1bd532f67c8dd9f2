import Mathlib.Data.Nat.Digits.Defs
import ThreeAddress.Proofs.Text.Numeral
import ThreeAddress.Value

namespace ThreeAddress.Text.Numeral

def decimalValue (digits : List Char) : ℕ :=
  Nat.ofDigits 10 (digits.reverse.map fun c ↦ c.toNat - '0'.toNat)

/-- Decimal digits behind at most one sign, and the number that they stand for. -/
inductive IsInteger : List Char → ℤ → Prop
  | unsigned {digits : List Char} : IsDigits digits → IsInteger digits (decimalValue digits)
  | positive {digits : List Char} :
      IsDigits digits → IsInteger ('+' :: digits) (decimalValue digits)
  | negative {digits : List Char} :
      IsDigits digits → IsInteger ('-' :: digits) (-decimalValue digits)

variable {s : List Char} {n : ℤ}

theorem ofDigitChars_eq (s : List Char) : Nat.ofDigitChars 10 s 0 = decimalValue s := by
  rw [decimalValue, Nat.ofDigits_eq_foldr, List.foldr_map, List.foldr_reverse, Nat.ofDigitChars]
  congr
  funext m c
  rw [Nat.cast_id, Nat.add_comm]

theorem natural?_of_isDigits (h : IsDigits s) : natural? s = some (decimalValue s) :=
  natural?_eq_some.2 ⟨h.1, h.2, ofDigitChars_eq s⟩

theorem IsInteger.integer?_eq (h : IsInteger s n) : integer? s = some n := by
  cases h with
  | unsigned h =>
    have hm : IsSign false [] := .inr ⟨rfl, .inl rfl⟩
    exact integer?_append_of_natural? hm (natural?_of_isDigits h)
  | positive h =>
    have hm : IsSign false ['+'] := .inr ⟨rfl, .inr rfl⟩
    exact integer?_append_of_natural? hm (natural?_of_isDigits h)
  | negative h =>
    have hm : IsSign true ['-'] := .inl ⟨rfl, rfl⟩
    exact integer?_append_of_natural? hm (natural?_of_isDigits h)

theorem IsInteger.of_integer? (h : integer? s = some n) : IsInteger s n := by
  obtain ⟨mark, hmark, digits, rfl, hd⟩ := isSome_integer?.1 (Option.isSome_of_eq_some h)
  obtain ⟨negative, hm⟩ := mem_signs.1 hmark
  rw [integer?_append_of_natural? hm (natural?_of_isDigits hd), Option.some_inj] at h
  subst h
  rcases hm with ⟨rfl, rfl⟩ | ⟨rfl, rfl | rfl⟩
  · exact .negative hd
  · exact .unsigned hd
  · exact .positive hd

theorem integer?_eq_some : integer? s = some n ↔ IsInteger s n :=
  ⟨IsInteger.of_integer?, IsInteger.integer?_eq⟩

theorem exists_int64?_eq_some :
    (∃ k, int64? s = some k ∧ k.toInt = n) ↔ IsInteger s n ∧ -2 ^ 63 ≤ n ∧ n ≤ 2 ^ 63 - 1 := by
  rw [← integer?_eq_some, ← fits64_iff]
  constructor
  · rintro ⟨k, hk, rfl⟩
    obtain ⟨m, hm, hk⟩ := Option.bind_eq_some_iff.1 hk
    split at hk
    · next hf =>
      obtain rfl := Option.some.inj hk
      rw [toInt_ofInt_of_fits64 hf]
      exact ⟨hm, hf⟩
    · cases hk
  · rintro ⟨hn, hf⟩
    refine ⟨Int64.ofInt n, ?_, toInt_ofInt_of_fits64 hf⟩
    rw [int64?, hn, Option.bind_some, if_pos hf]

/-- An integer is read from just those texts that write it, with any number of leading zeros. It is
read back from the text in which it is shown. -/
theorem integer_literals (s : List Char) (n : ℤ) :
    ((∃ k, int64? s = some k ∧ k.toInt = n) ↔
      IsInteger s n ∧ -2 ^ 63 ≤ n ∧ n ≤ 2 ^ 63 - 1) ∧
    int64? "-9223372036854775808".toList = some Int64.minValue ∧
    ∀ k : Int64, int64? (Value.int k).display.toList = some k := by
  have hwrite (k : Int64) : int64? (Value.int k).display.toList = some k := by
    rw [Value.display, String.toList_ofList, int64?_write]
  exact ⟨exists_int64?_eq_some, hwrite Int64.minValue, hwrite⟩

/-- The largest integer is one less than what its digits may be with a minus sign. -/
example : int64? "+0009223372036854775807".toList = some Int64.maxValue ∧
    int64? "9223372036854775808".toList = none := by decide +kernel

end ThreeAddress.Text.Numeral
