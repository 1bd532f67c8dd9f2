import Mathlib.Algebra.Group.Int.Defs
import ThreeAddress.Proofs.Text
import ThreeAddress.Text.Numeral

namespace ThreeAddress.Text.Numeral

variable {s : List Char} {n : Nat}

/-- At least one decimal digit, and nothing else. -/
def IsDigits (s : List Char) : Prop := s ≠ [] ∧ ∀ c ∈ s, c.isDigit = true

theorem natural?_eq_some : natural? s = some n ↔
    s ≠ [] ∧ (∀ c ∈ s, c.isDigit = true) ∧ Nat.ofDigitChars 10 s 0 = n := by
  rw [natural?, ← List.all_eq_true]
  split
  · next h =>
    rw [Option.some_inj]
    exact ⟨fun hn ↦ ⟨h.1, h.2, hn⟩, fun hn ↦ hn.2.2⟩
  · next h =>
    constructor
    · intro hn
      cases hn
    · intro hn
      exact absurd ⟨hn.1, hn.2.1⟩ h

theorem isSome_natural? : (natural? s).isSome = true ↔ IsDigits s := by
  rw [Option.isSome_iff_exists]
  constructor
  · rintro ⟨n, hn⟩
    obtain ⟨hne, hd, -⟩ := natural?_eq_some.1 hn
    exact ⟨hne, hd⟩
  · rintro ⟨hne, hd⟩
    exact ⟨_, natural?_eq_some.2 ⟨hne, hd, rfl⟩⟩

theorem sign_append_digits {negative : Bool} {mark : List Char} (hm : IsSign negative mark)
    (h : IsDigits s) : sign (mark ++ s) = (negative, s) := by
  refine sign_append hm fun c hc ↦ ?_
  have hd := h.2 c (List.mem_of_head? hc)
  constructor
  · rintro rfl
    cases hd
  · rintro rfl
    cases hd

theorem isSome_integer? :
    (integer? s).isSome = true ↔ ∃ mark ∈ signs, ∃ digits, s = mark ++ digits ∧ IsDigits digits := by
  rw [integer?, Option.isSome_map, isSome_natural?]
  constructor
  · intro h
    obtain ⟨mark, hs, hm⟩ := exists_sign s
    exact ⟨mark, mem_signs.2 ⟨_, hm⟩, _, hs, h⟩
  · rintro ⟨mark, hm, digits, rfl, h⟩
    obtain ⟨negative, hm⟩ := mem_signs.1 hm
    rwa [sign_append_digits hm h]

theorem isDigits_toDigits (n : Nat) : IsDigits (Nat.toDigits 10 n) :=
  ⟨Nat.toDigits_ne_nil, fun _ hc ↦ Nat.isDigit_of_mem_toDigits (by decide) (by decide) hc⟩

theorem natural?_toDigits (n : Nat) : natural? (Nat.toDigits 10 n) = some n := by
  obtain ⟨hne, hd⟩ := isDigits_toDigits n
  exact natural?_eq_some.2 ⟨hne, hd, Nat.ofDigitChars_ten_toDigits⟩

theorem integer?_append_of_natural? {negative : Bool} {mark : List Char} (hm : IsSign negative mark)
    (h : natural? s = some n) : integer? (mark ++ s) = some (if negative then -(n : Int) else n) := by
  have hd : IsDigits s := isSome_natural?.1 (Option.isSome_of_eq_some h)
  rw [integer?, sign_append_digits hm hd, h, Option.map_some]

theorem integer?_append {negative : Bool} (h : IsSign negative s) (n : Nat) :
    integer? (s ++ Nat.toDigits 10 n) = some (if negative then -(n : Int) else n) :=
  integer?_append_of_natural? h (natural?_toDigits n)

/-- A written number is read back from its sign and its digits. -/
theorem integer?_signed (e : Int) :
    integer? ((if e < 0 then '-' else '+') :: Nat.toDigits 10 e.natAbs) = some e := by
  by_cases he : e < 0
  · have hs : (if true then -(e.natAbs : Int) else e.natAbs) = e := by grind
    rw [if_pos he, ← List.singleton_append, integer?_append (.inl ⟨rfl, rfl⟩), hs]
  · have hs : (if false then -(e.natAbs : Int) else e.natAbs) = e := by grind
    rw [if_neg he, ← List.singleton_append, integer?_append (.inr ⟨rfl, .inr rfl⟩), hs]

theorem integer?_write (n : Int) : integer? (write n) = some n := by
  by_cases hn : n < 0
  · have hs : (if true then -(n.natAbs : Int) else n.natAbs) = n := by grind
    rw [write, if_pos hn, ← List.singleton_append, integer?_append (.inl ⟨rfl, rfl⟩), hs]
  · have hs : (if false then -(n.natAbs : Int) else n.natAbs) = n := by grind
    rw [write, if_neg hn, ← List.nil_append (Nat.toDigits _ _),
      integer?_append (.inr ⟨rfl, .inl rfl⟩), hs]

theorem isBlank_of_mem_write {n : Int} {c : Char} (h : c ∈ write n) : isBlank c = false := by
  have hd (hc : c ∈ Nat.toDigits 10 n.natAbs) : isBlank c = false :=
    isBlank_of_isDigit (Nat.isDigit_of_mem_toDigits (by decide) (by decide) hc)
  rw [write] at h
  split at h
  · rcases List.mem_cons.1 h with rfl | hc
    · rfl
    · exact hd hc
  · exact hd h

theorem fits64_iff {n : Int} : fits64 n = true ↔ -2 ^ 63 ≤ n ∧ n ≤ 2 ^ 63 - 1 := by
  rw [fits64, Bool.and_eq_true, decide_eq_true_eq, decide_eq_true_eq]
  exact Iff.rfl

theorem fits64_toInt (n : Int64) : fits64 n.toInt = true :=
  fits64_iff.2 ⟨n.le_toInt, n.toInt_le⟩

theorem toInt_ofInt_of_fits64 {n : Int} (h : fits64 n = true) : (Int64.ofInt n).toInt = n := by
  obtain ⟨hl, hu⟩ := fits64_iff.1 h
  exact Int64.toInt_ofInt_of_le hl (Int.lt_of_le_sub_one hu)

theorem int64?_write (n : Int64) : int64? (write n.toInt) = some n := by
  rw [int64?, integer?_write, Option.bind_some, if_pos (fits64_toInt n), Int64.ofInt_toInt]

theorem hexDigit?_digitChar : ∀ d < 16, hexDigit? (Nat.digitChar d) = some d := by decide

end ThreeAddress.Text.Numeral
