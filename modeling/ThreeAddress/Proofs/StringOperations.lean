import Mathlib.Algebra.BigOperators.Group.List.Basic
import ThreeAddress.Operation
import ThreeAddress.Proofs.Except
import ThreeAddress.Proofs.Text
import ThreeAddress.Proofs.Text.Lines

namespace ThreeAddress.Value

/-- The string has a character at this position. -/
def Within (s : String) (i : Int64) : Prop := 0 ≤ i.toInt ∧ i.toInt < s.length

/-- The codes of characters; those of surrogates are none. -/
def IsScalar (n : ℤ) : Prop := 0 ≤ n ∧ n < 0xD800 ∨ 0xDFFF < n ∧ n < 0x110000

/-- GETCHAR and STRI2INT find the same character, or neither finds one. -/
structure Indexed (s : String) (i : Int64) : Prop where
  within : Within s i → ∃ c, s.toList[i.toInt.toNat]? = some c ∧
    getChar (.string s) (.int i) = .ok (.string (String.singleton c)) ∧
    BinaryOp.stri2int.apply (.string s) (.int i) = .ok (.int (Int64.ofNat c.toNat))
  outside : ¬ Within s i →
    getChar (.string s) (.int i) = .error (.indexOutOfRange i s.length) ∧
    BinaryOp.stri2int.apply (.string s) (.int i) = .error (.indexOutOfRange i s.length)
  back : (BinaryOp.stri2int.apply (.string s) (.int i) >>= UnaryOp.int2char.apply) =
    getChar (.string s) (.int i)

/-- INT2CHAR takes the codes of characters, and STRI2INT gives them back. -/
structure Encoded (n : Int64) : Prop where
  scalar : IsScalar n.toInt → ∃ x, UnaryOp.int2char.apply (.int n) = .ok x ∧
    BinaryOp.stri2int.apply x (.int 0) = .ok (.int n)
  other : ¬ IsScalar n.toInt → UnaryOp.int2char.apply (.int n) = .error (.invalidCodepoint n)

/-- SETCHAR puts the first character of `r` in the place of one of `s`. -/
structure Replaced (s : String) (i : Int64) (r : String) : Prop where
  outside : ¬ Within s i →
    setChar (.string s) (.int i) (.string r) = .error (.indexOutOfRange i s.length)
  empty : Within s i → r = "" →
    setChar (.string s) (.int i) (.string r) = .error .emptyReplacement
  within : Within s i → r ≠ "" → ∃ u, setChar (.string s) (.int i) (.string r) = .ok (.string u) ∧
    strlen (.string u) = strlen (.string s) ∧
    ∀ k, u.toList[k]? = if k = i.toInt.toNat then r.toList[0]? else s.toList[k]?

/-- The characters of `u` are those of `s`, and then those of `t`. -/
structure Joined (s t u : String) : Prop where
  length : u.length = s.length + t.length
  strlen : ∃ k l, Value.strlen (.string s) = .ok (.int k) ∧
    Value.strlen (.string t) = .ok (.int l) ∧ Value.strlen (.string u) = .ok (.int (k + l))
  left : ∀ i : Int64, i.toInt < s.length → ∀ x,
    getChar (.string u) (.int i) = .ok x ↔ getChar (.string s) (.int i) = .ok x
  right : ∀ i k : Int64, s.length ≤ i.toInt → Value.strlen (.string s) = .ok (.int k) → ∀ x,
    getChar (.string u) (.int i) = .ok x ↔ getChar (.string t) (.int (i - k)) = .ok x

variable {s t r u : String} {i n : Int64} {c : Char} {x : Value}

theorem length_le_utf8ByteSize (s : String) : s.length ≤ s.utf8ByteSize := by
  have hbytes : s.utf8ByteSize = (Text.utf8 s).length := rfl
  rw [hbytes, Text.utf8_eq, List.length_flatMap, ← String.length_toList]
  have hsum := List.length_le_sum_of_one_le
    (s.toList.map fun c ↦ (String.utf8EncodeChar c).length) fun n hn ↦ by
      obtain ⟨c, -, rfl⟩ := List.mem_map.1 hn
      rw [String.length_utf8EncodeChar]
      exact c.utf8Size_pos
  rwa [List.length_map] at hsum

theorem toInt_ofNat_length (h : s.utf8ByteSize < 2 ^ 63) :
    (Int64.ofNat s.length).toInt = s.length :=
  Int64.toInt_ofNat_of_lt ((length_le_utf8ByteSize s).trans_lt h)

theorem charAt_outside (h : ¬ Within s i) : charAt s i = .error (.indexOutOfRange i s.length) := by
  rw [charAt]
  split
  · next c hc =>
    split at hc
    · cases hc
    · next hi =>
      obtain ⟨hlt, -⟩ := List.getElem?_eq_some_iff.1 hc
      rw [String.length_toList] at hlt
      rw [Int64.lt_iff_toInt_lt, Int64.toInt_zero] at hi
      exact absurd ⟨by omega, by omega⟩ h
  · rfl

theorem charAt_of_getElem? (hi : 0 ≤ i.toInt) (hc : s.toList[i.toInt.toNat]? = some c) :
    charAt s i = .ok c := by
  have hn : ¬ i < 0 := by
    rw [Int64.lt_iff_toInt_lt, Int64.toInt_zero]
    omega
  rw [charAt, if_neg hn, hc]

theorem charAt_within (h : Within s i) :
    ∃ c, s.toList[i.toInt.toNat]? = some c ∧ charAt s i = .ok c := by
  obtain ⟨hl, hu⟩ := h
  have hlt : i.toInt.toNat < s.toList.length := by
    rw [String.length_toList]
    omega
  have hc := List.getElem?_eq_getElem hlt
  exact ⟨_, hc, charAt_of_getElem? hl hc⟩

theorem charAt_eq_ok :
    charAt s i = .ok c ↔ 0 ≤ i.toInt ∧ s.toList[i.toInt.toNat]? = some c := by
  constructor
  · intro h
    by_cases hw : Within s i
    · obtain ⟨d, hd, hc⟩ := charAt_within hw
      rw [hc] at h
      cases h
      exact ⟨hw.1, hd⟩
    · rw [charAt_outside hw] at h
      cases h
  · rintro ⟨hi, hc⟩
    exact charAt_of_getElem? hi hc

theorem getChar_eq (s : String) (i : Int64) : getChar (.string s) (.int i) =
    (charAt s i).map fun c ↦ .string (String.singleton c) := rfl

theorem stri2int_eq (s : String) (i : Int64) : BinaryOp.stri2int.apply (.string s) (.int i) =
    (charAt s i).map fun c ↦ .int (Int64.ofNat c.toNat) := rfl

theorem getChar_eq_ok : getChar (.string s) (.int i) = .ok x ↔
    0 ≤ i.toInt ∧ ∃ c, s.toList[i.toInt.toNat]? = some c ∧ .string (String.singleton c) = x := by
  rw [getChar_eq, Except.map_eq_ok]
  simp only [charAt_eq_ok, and_assoc, exists_and_left]

theorem isScalar_iff : IsScalar n.toInt ↔ 0 ≤ n ∧ n.toInt.toNat.isValidChar := by
  rw [IsScalar, Int64.le_iff_toInt_le, Int64.toInt_zero, Nat.isValidChar]
  omega

theorem int2char_scalar (h : IsScalar n.toInt) : UnaryOp.int2char.apply (.int n) =
    .ok (.string (String.singleton (Char.ofNat n.toInt.toNat))) := by
  rw [UnaryOp.apply, if_pos (isScalar_iff.1 h)]

theorem isScalar_toNat (c : Char) : IsScalar c.toNat := by
  have hc : c.toNat.isValidChar := c.valid
  rw [Nat.isValidChar] at hc
  rw [IsScalar]
  omega

theorem toInt_ofNat_toNat (c : Char) : (Int64.ofNat c.toNat).toInt = c.toNat := by
  have hc := isScalar_toNat c
  rw [IsScalar] at hc
  exact Int64.toInt_ofNat_of_lt (by omega)

theorem ofNat_toNat_ofNat (h : IsScalar n.toInt) :
    Int64.ofNat (Char.ofNat n.toInt.toNat).toNat = n := by
  obtain ⟨hl, hv⟩ := isScalar_iff.1 h
  rw [Int64.le_iff_toInt_le, Int64.toInt_zero] at hl
  rw [← Int64.toInt_inj, toInt_ofNat_toNat, Text.toNat_ofNat hv, Int.toNat_of_nonneg hl]

theorem int2char_ofNat (c : Char) :
    UnaryOp.int2char.apply (.int (Int64.ofNat c.toNat)) = .ok (.string (String.singleton c)) := by
  have hs : IsScalar (Int64.ofNat c.toNat).toInt := by
    rw [toInt_ofNat_toNat]
    exact isScalar_toNat c
  rw [int2char_scalar hs, toInt_ofNat_toNat, Int.toNat_natCast, Char.ofNat_toNat]

theorem indexed (s : String) (i : Int64) : Indexed s i where
  within h := by
    obtain ⟨c, hc, hat⟩ := charAt_within h
    exact ⟨c, hc, by rw [getChar_eq, hat]; rfl, by rw [stri2int_eq, hat]; rfl⟩
  outside h := by
    rw [getChar_eq, stri2int_eq, charAt_outside h]
    exact ⟨rfl, rfl⟩
  back := by
    rw [getChar_eq, stri2int_eq]
    cases charAt s i with
    | ok c => exact int2char_ofNat c
    | error f => rfl

theorem encoded (n : Int64) : Encoded n where
  scalar h := by
    refine ⟨_, int2char_scalar h, ?_⟩
    have hc : charAt (String.singleton (Char.ofNat n.toInt.toNat)) 0 =
        .ok (Char.ofNat n.toInt.toNat) :=
      charAt_of_getElem? (by decide) (by rw [String.toList_singleton]; rfl)
    rw [stri2int_eq, hc, Except.map, ofNat_toNat_ofNat h]
  other h := by
    rw [isScalar_iff] at h
    rw [UnaryOp.apply, if_neg h]

theorem replaced (s : String) (i : Int64) (r : String) : Replaced s i r where
  outside h := by
    rw [setChar, charAt_outside h]
    rfl
  empty h hr := by
    obtain ⟨c, -, hat⟩ := charAt_within h
    rw [setChar, hat, hr]
    rfl
  within h hr := by
    obtain ⟨d, hd, hat⟩ := charAt_within h
    obtain ⟨c, l, hl⟩ := List.exists_cons_of_ne_nil (mt String.toList_eq_nil_iff.1 hr)
    have hset : setChar (.string s) (.int i) (.string r) =
        .ok (.string (String.ofList (s.toList.set i.toInt.toNat c))) := by
      rw [setChar, hat, hl]
      rfl
    refine ⟨_, hset, ?_, ?_⟩
    · rw [strlen, strlen, String.length_ofList, List.length_set, String.length_toList]
    · intro k
      obtain ⟨hlt, -⟩ := List.getElem?_eq_some_iff.1 hd
      rw [String.toList_ofList, List.getElem?_set, hl, if_pos hlt]
      simp only [eq_comm (a := k), List.getElem?_cons_zero]

/-- What lies behind `s` is a position of its own. -/
theorem toInt_sub_length (h : s.length ≤ i.toInt) :
    (i - Int64.ofNat s.length).toInt = i.toInt - s.length := by
  have hu := i.toInt_lt
  have hs : (Int64.ofNat s.length).toInt = s.length := Int64.toInt_ofNat_of_lt (by omega)
  rw [Int64.toInt_sub, hs, Int.bmod_eq_of_le] <;> omega

theorem joined (s t : String) : Joined s t (s ++ t) where
  length := String.length_append s t
  strlen := by
    refine ⟨_, _, rfl, rfl, ?_⟩
    rw [Value.strlen, String.length_append, Int64.ofNat_add]
  left i hi x := by
    rw [getChar_eq_ok, getChar_eq_ok]
    refine and_congr_right fun hl ↦ ?_
    have hlt : i.toInt.toNat < s.toList.length := by
      rw [String.length_toList]
      omega
    rw [String.toList_append, List.getElem?_append_left hlt]
  right i k hi hk x := by
    cases hk
    have hle : s.toList.length ≤ i.toInt.toNat := by
      rw [String.length_toList]
      omega
    have hpos : i.toInt.toNat - s.length = (i.toInt - s.length).toNat := by omega
    rw [getChar_eq_ok, getChar_eq_ok, toInt_sub_length hi, String.toList_append,
      List.getElem?_append_right hle, String.length_toList, hpos]
    refine and_congr_left fun _ ↦ ?_
    omega

/-- The operations on strings count the same characters at the same positions. -/
theorem string_operations (s t r : String) (i n : Int64) :
    (∃ k, strlen (.string s) = .ok (.int k) ∧ (s.utf8ByteSize < 2 ^ 63 → k.toInt = s.length)) ∧
    Indexed s i ∧ Encoded n ∧ Replaced s i r ∧
    ∃ u, concat (.string s) (.string t) = .ok (.string u) ∧ Joined s t u :=
  ⟨⟨_, rfl, toInt_ofNat_length⟩, indexed s i, encoded n, replaced s i r, _, rfl, joined s t⟩

/-- Positions count characters, here of two bytes, of four and of one. -/
theorem string_operations_wide :
    "ž𐍈a".utf8ByteSize < 2 ^ 63 ∧ Within "ž𐍈a" 1 ∧ IsScalar 0x10348 ∧ "úp" ≠ "" ∧
    (∃ k, strlen (.string "ž𐍈a") = .ok (.int k) ∧ k.toInt = 3) ∧
    BinaryOp.stri2int.apply (.string "ž𐍈a") (.int 1) = .ok (.int 0x10348) ∧
    (∃ x, UnaryOp.int2char.apply (.int 0x10348) = .ok x ∧
      BinaryOp.stri2int.apply x (.int 0) = .ok (.int 0x10348)) ∧
    (∃ u, setChar (.string "ž𐍈a") (.int 1) (.string "úp") = .ok (.string u) ∧
      u.toList[1]? = some 'ú' ∧ u.toList[2]? = some 'a') ∧
    ∃ u, concat (.string "ž𐍈a") (.string "é") = .ok (.string u) ∧
      getChar (.string u) (.int 1) = .ok (.string "𐍈") ∧
      getChar (.string u) (.int 3) = .ok (.string "é") := by
  have hs : "ž𐍈a".utf8ByteSize < 2 ^ 63 := by decide
  have hi : Within "ž𐍈a" 1 := ⟨by decide, by decide⟩
  have hn : IsScalar 0x10348 := .inr ⟨by decide, by decide⟩
  have hr : "úp" ≠ "" := by decide
  obtain ⟨⟨k, hk, hlength⟩, hindexed, hencoded, hreplaced, v, hv, hjoined⟩ :=
    string_operations "ž𐍈a" "é" "úp" 1 0x10348
  obtain ⟨c, hc, hget, hcode⟩ := hindexed.within hi
  obtain rfl : '𐍈' = c := Option.some.inj (hc.symm.trans (by decide)).symm
  obtain ⟨u, hu, -, hchars⟩ := hreplaced.within hi hr
  refine ⟨hs, hi, hn, hr, ⟨k, hk, hlength hs⟩, hcode, hencoded.scalar hn,
    ⟨u, hu, hchars 1, hchars 2⟩, v, hv, ?_, ?_⟩
  · exact (hjoined.left 1 (by decide) _).2 hget
  · exact (hjoined.right 3 3 (by decide) rfl _).2 rfl

end ThreeAddress.Value
