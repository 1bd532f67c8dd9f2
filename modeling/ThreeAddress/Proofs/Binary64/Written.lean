import ThreeAddress.Proofs.Binary64.HexNumeral
import ThreeAddress.Proofs.Text.Numeral

namespace ThreeAddress.Binary64

open Text

/-- The last `k` hexadecimal digits of a number. -/
def lastDigits (n k : ℕ) : List ℕ := (List.range k).map fun i ↦ n >>> (4 * (k - 1 - i)) % 16

variable {x y : Binary64} {n k m : ℕ} {c : Char}

theorem lastDigits_succ (n k : ℕ) : lastDigits n (k + 1) = n / 16 ^ k % 16 :: lastDigits n k := by
  have h16 : n >>> (4 * k) = n / 16 ^ k := by
    rw [Nat.shiftRight_eq_div_pow, Nat.pow_mul]
  rw [lastDigits, List.range_succ_eq_map, List.map_cons, List.map_map, lastDigits, ← h16]
  refine congrArg _ (List.map_congr_left fun i _ ↦ ?_)
  rw [Function.comp_apply, show k + 1 - 1 - i.succ = k - 1 - i by omega]

/-- Read from the left, the digits come back behind those of any number read before them. -/
theorem foldl_lastDigits (n k m : ℕ) :
    (lastDigits n k).foldl (fun n d ↦ 16 * n + d) m = m * 16 ^ k + n % 16 ^ k := by
  induction k generalizing m with
  | zero => simp [lastDigits, Nat.mod_one]
  | succ k ih =>
    rw [lastDigits_succ, List.foldl_cons, ih, Nat.pow_succ, Nat.mod_mul]
    ring

theorem spells_fractionDigits (n : ℕ) : Spells (fractionDigits n) (lastDigits n 13) := by
  rw [Spells, fractionDigits, lastDigits, List.forall₂_map_left_iff, List.forall₂_map_right_iff,
    List.forall₂_same]
  exact fun i _ ↦ Numeral.hexDigit?_digitChar _ (Nat.mod_lt _ (by decide))

def writtenPower (x : Binary64) : ℤ := if x.biased = 0 then -1022 else (x.biased : ℤ) - 1023

/-- What is written of a finite number other than zero, after its sign. -/
def unsigned (x : Binary64) : List Char :=
  ['0', 'x'] ++ ((if x.biased = 0 then '0' else '1') :: '.' :: fractionDigits x.fraction ++
    'p' :: (if x.writtenPower < 0 then '-' else '+') :: Nat.toDigits 10 x.writtenPower.natAbs)

def signMark (negative : Bool) : List Char := if negative then ['-'] else []

theorem isSign_signMark (negative : Bool) : IsSign negative (signMark negative) := by
  cases negative with
  | true => exact .inl ⟨rfl, rfl⟩
  | false => exact .inr ⟨rfl, .inl rfl⟩

theorem write_finite (hf : x.magnitude < infinite) (h0 : x.magnitude ≠ 0) :
    x.write = signMark x.negative ++ x.unsigned := by
  have hn : x.isNaN = false := decide_eq_false (by omega)
  have hi : x.isInfinite = false := beq_eq_false_iff_ne.2 hf.ne
  have hz : x.isZero = false := beq_eq_false_iff_ne.2 h0
  rw [write, hn, hi, hz]
  simp only [Bool.false_eq_true, ↓reduceIte, unsigned, signMark, writtenPower, List.append_assoc,
    List.cons_append, List.nil_append]
  rfl

theorem significand_eq (x : Binary64) :
    x.significand = hexValue ((if x.biased = 0 then 0 else 1) :: lastDigits x.fraction 13) := by
  have hf : x.fraction < 16 ^ 13 := Nat.mod_lt _ (by decide)
  rw [hexValue, List.foldl_cons, foldl_lastDigits, Nat.mod_eq_of_lt hf, significand]
  split
  · omega
  · rfl

theorem exponent_eq (x : Binary64) : x.exponent = x.writtenPower - 4 * 13 := by
  rw [exponent, writtenPower]
  split <;> omega

theorem isHexadecimal_unsigned (x : Binary64) :
    IsHexadecimal x.unsigned (x.significand * 2 ^ x.exponent) := by
  have hlead : Numeral.hexDigit? (if x.biased = 0 then '0' else '1') =
      some (if x.biased = 0 then 0 else 1) := by
    split <;> rfl
  have hm : IsMantissa ((if x.biased = 0 then '0' else '1') :: '.' :: fractionDigits x.fraction)
      [if x.biased = 0 then 0 else 1] (lastDigits x.fraction 13) :=
    ⟨[_], _, .cons hlead .nil, spells_fractionDigits _, .inl (List.cons_ne_nil _ _), .inl rfl⟩
  have hp : IsPower ('p' :: (if x.writtenPower < 0 then '-' else '+') ::
      Nat.toDigits 10 x.writtenPower.natAbs) x.writtenPower :=
    .inr ⟨_, rfl, Numeral.integer?_signed _⟩
  refine ⟨['0', 'x'], _, _, _, _, _, rfl, .inr rfl, hm, hp, ?_⟩
  rw [significand_eq, exponent_eq, List.singleton_append]
  rfl

theorem toLower_of_isDigit (h : c.isDigit = true) : c.toLower = c :=
  toLower_eq_self (.inl (by have := isDigit_iff.1 h; omega))

theorem toLower_digitChar : ∀ d < 16, (Nat.digitChar d).toLower = Nat.digitChar d := by decide

theorem toLower_of_mem_unsigned (h : c ∈ x.unsigned) : c.toLower = c := by
  simp only [unsigned, List.mem_append, List.mem_cons, List.not_mem_nil, or_false] at h
  rcases h with (rfl | rfl) | (rfl | rfl | h) | rfl | rfl | h
  · rfl
  · rfl
  · split <;> rfl
  · rfl
  · obtain ⟨i, -, rfl⟩ := List.mem_map.1 h
    exact toLower_digitChar _ (Nat.mod_lt _ (by decide))
  · rfl
  · split <;> rfl
  · exact toLower_of_isDigit (Nat.isDigit_of_mem_toDigits (by decide) (by decide) h)

theorem hexNumeral_write (hf : x.magnitude < infinite) (h0 : x.magnitude ≠ 0) :
    HexNumeral x.write x.negative x.value := by
  have hl : x.unsigned.map Char.toLower = x.unsigned :=
    (List.map_congr_left fun c hc ↦ toLower_of_mem_unsigned hc).trans (List.map_id _)
  refine ⟨[], signMark x.negative, x.unsigned, [], _, ?_, List.forall_mem_nil _,
    List.forall_mem_nil _, isSign_signMark _, hl.symm ▸ isHexadecimal_unsigned x, rfl⟩
  rw [List.nil_append, List.append_nil, write_finite hf h0]

/-- A finite number is the nearest one to itself. -/
theorem roundsTo_value (hf : x.magnitude < infinite) : RoundsTo x.negative x.value x := by
  have hr : Rounded (grid x.magnitude) x.magnitude := by
    have hg := grid_lt_succ x.magnitude
    exact .down le_rfl hg (.inl (by linarith))
  have h := hr.roundsTo (grid_nonneg _) x.negative
  rwa [← value_eq, min_eq_left hf.le, ofMagnitude_magnitude] at h

theorem length_write_lt (hf : x.magnitude < infinite) (h0 : x.magnitude ≠ 0) :
    x.write.length < 2 ^ 28 := by
  have hb : x.biased < 2047 := Nat.div_lt_of_lt_mul (by rwa [Nat.mul_comm])
  have hp : x.writtenPower.natAbs < 10 ^ 4 := by
    rw [writtenPower]
    split <;> omega
  have hd : (Nat.toDigits 10 x.writtenPower.natAbs).length ≤ 4 :=
    (Nat.length_toDigits_le_iff (by decide) (by decide)).2 hp
  have hs : (signMark x.negative).length ≤ 1 := by
    cases x.negative <;> decide
  simp only [write_finite hf h0, unsigned, fractionDigits, List.length_append, List.length_cons,
    List.length_nil, List.length_map, List.length_range]
  omega

theorem finite_or_word (h : x.isNaN = false) :
    x.magnitude < infinite ∧ x.magnitude ≠ 0 ∨ x = zero x.negative ∨ x = infinity x.negative := by
  have hle : x.magnitude ≤ infinite := not_lt.1 (of_decide_eq_false h)
  have hx := ofMagnitude_magnitude x
  rcases hle.lt_or_eq with hf | hi
  · by_cases h0 : x.magnitude = 0
    · exact .inr (.inl (by rw [zero, ← h0, hx]))
    · exact .inl ⟨hf, h0⟩
  · exact .inr (.inr (by rw [infinity, ← hi, hx]))

theorem readHex?_write_zero : ∀ b, readHex? (zero b).write = some (zero b) := by decide +kernel

theorem readHex?_write_infinity : ∀ b, readHex? (infinity b).write = some (infinity b) := by
  decide +kernel

/-- No rounding takes place: the value written is that of a number, and a number is the nearest one
to its own value. -/
theorem readHex?_write (h : x.isNaN = false) : readHex? x.write = some x := by
  rcases finite_or_word h with ⟨hf, h0⟩ | hx | hx
  · obtain ⟨y, hy, hr⟩ := (hexNumeral_write hf h0).exists_readHex? (length_write_lt hf h0)
    rw [hy, hr.unique (roundsTo_value hf)]
  · rw [hx, readHex?_write_zero]
  · rw [hx, readHex?_write_infinity]

theorem write_ne_nil (h : x.isNaN = false) : x.write ≠ [] := by
  intro he
  have hr := readHex?_write h
  rw [he, show readHex? [] = none by decide] at hr
  cases hr

theorem any_isBlank_signMark : ∀ b, (signMark b).any isBlank = false := by decide

theorem any_isBlank_zero : ∀ b, (zero b).write.any isBlank = false := by decide +kernel

theorem any_isBlank_infinity : ∀ b, (infinity b).write.any isBlank = false := by decide +kernel

theorem any_isBlank_write (h : x.isNaN = false) : x.write.any isBlank = false := by
  rcases finite_or_word h with ⟨hf, h0⟩ | hx | hx
  · have hu : x.unsigned.any isBlank = false :=
      List.any_eq_false.2 fun c hc ↦ Bool.eq_false_iff.1 ((isHexadecimal_unsigned x).not_isBlank hc)
    rw [write_finite hf h0, List.any_append, any_isBlank_signMark, hu, Bool.or_self]
  · rw [hx, any_isBlank_zero]
  · rw [hx, any_isBlank_infinity]

theorem isBlank_of_mem_write (h : x.isNaN = false) (hc : c ∈ x.write) : isBlank c = false :=
  Bool.eq_false_iff.2 (List.any_eq_false.1 (any_isBlank_write h) c hc)

end ThreeAddress.Binary64
