import Mathlib.Algebra.Order.Field.Power
import Mathlib.Algebra.Order.Ring.Abs
import Mathlib.Data.Rat.Cast.Order
import Mathlib.Tactic.Linarith
import Mathlib.Tactic.Ring
import ThreeAddress.Binary64.Basic

namespace ThreeAddress.Binary64

def signed (negative : Bool) : ℚ := if negative then -1 else 1

def value (x : Binary64) : ℚ := signed x.negative * (x.significand * 2 ^ x.exponent)

def overflow : ℚ := 2 ^ (1024 : ℤ) - 2 ^ (970 : ℤ)

/-- `x` is the correctly rounded `q`: the nearest finite number, from halfway the one with the even
significand, and an infinity from the midpoint above the largest one. -/
structure RoundsTo (negative : Bool) (q : ℚ) (x : Binary64) : Prop where
  sign : x.negative = negative
  overflows : overflow ≤ |q| → x = infinity negative
  finite : |q| < overflow → x.magnitude < infinite
  nearest : |q| < overflow → ∀ y : Binary64, y.magnitude < infinite →
    |x.value - q| ≤ |y.value - q|
  even : |q| < overflow → ∀ y : Binary64, y.magnitude < infinite →
    |y.value - q| = |x.value - q| → y.value ≠ x.value → x.significand % 2 = 0
  underflow : |q| ≤ 2 ^ (-1075 : ℤ) → x = zero negative

/-- The value of a magnitude. The grid goes on in the same way beyond the largest finite number. -/
def grid (n : ℕ) : ℚ :=
  if n / fractionSize = 0 then (n % fractionSize : ℕ) * 2 ^ (-1074 : ℤ)
  else (fractionSize + n % fractionSize : ℕ) * 2 ^ ((n / fractionSize : ℕ) - 1075 : ℤ)

theorem value_eq (x : Binary64) : x.value = signed x.negative * grid x.magnitude := by
  simp only [value, grid, significand, exponent, biased, fraction]
  by_cases h : x.magnitude / fractionSize = 0
  · simp only [h, ↓reduceIte]
  · simp only [h, ↓reduceIte]

theorem significand_mod_two (x : Binary64) : x.significand % 2 = x.magnitude % 2 := by
  simp only [significand, biased, fraction, fractionSize]
  by_cases h : x.magnitude / 0x10000000000000 = 0
  · simp only [h, ↓reduceIte]
    omega
  · simp only [h, ↓reduceIte]
    omega

/-- Each binade begins where the last one ends, so its end belongs to it as well. -/
theorem grid_eq {b k : ℕ} (hb : b = 0 ∨ fractionSize ≤ k) (hk : k ≤ 2 * fractionSize) :
    grid (b * fractionSize + k) = k * 2 ^ (b - 1074 : ℤ) := by
  have hf : 0 < fractionSize := by decide
  rcases Nat.lt_or_ge k fractionSize with hlt | hge
  · obtain rfl : b = 0 := hb.resolve_right (by omega)
    have hd : k / fractionSize = 0 := Nat.div_eq_of_lt hlt
    rw [Nat.zero_mul, Nat.zero_add, grid, if_pos hd, Nat.mod_eq_of_lt hlt]
    norm_num
  · rcases Nat.lt_or_ge k (2 * fractionSize) with hlt | hge'
    · have hn : b * fractionSize + k = (k - fractionSize) + fractionSize * (b + 1) := by
        rw [Nat.mul_succ, Nat.mul_comm fractionSize b]
        omega
      have hd : (b * fractionSize + k) / fractionSize = b + 1 := by
        rw [hn, Nat.add_mul_div_left _ _ hf, Nat.div_eq_of_lt (by omega), Nat.zero_add]
      have hm : (b * fractionSize + k) % fractionSize = k - fractionSize := by
        rw [hn, Nat.add_mul_mod_self_left, Nat.mod_eq_of_lt (by omega)]
      rw [grid, if_neg (by omega), hd, hm, Nat.add_sub_of_le hge]
      congr 2
      push_cast
      ring
    · obtain rfl : k = 2 * fractionSize := by omega
      have hn : b * fractionSize + 2 * fractionSize = 0 + fractionSize * (b + 2) := by ring
      have hd : (b * fractionSize + 2 * fractionSize) / fractionSize = b + 2 := by
        rw [hn, Nat.add_mul_div_left _ _ hf, Nat.zero_div, Nat.zero_add]
      have hm : (b * fractionSize + 2 * fractionSize) % fractionSize = 0 := by
        rw [hn, Nat.add_mul_mod_self_left, Nat.zero_mod]
      rw [grid, if_neg (by omega), hd, hm]
      have he : ((b + 2 : ℕ) - 1075 : ℤ) = (b - 1074 : ℤ) + 1 := by push_cast; ring
      rw [he, zpow_add_one₀ (by norm_num)]
      push_cast
      ring

theorem exists_binade (n : ℕ) : ∃ b k, n = b * fractionSize + k ∧
    (b = 0 ∨ fractionSize ≤ k) ∧ k < 2 * fractionSize := by
  have hm := Nat.mod_lt n (show 0 < fractionSize by decide)
  have hn := Nat.div_add_mod n fractionSize
  cases hd : n / fractionSize with
  | zero =>
    rw [hd] at hn
    exact ⟨0, n % fractionSize, by omega, .inl rfl, by omega⟩
  | succ b =>
    rw [hd, Nat.mul_succ] at hn
    exact ⟨b, fractionSize + n % fractionSize, by rw [Nat.mul_comm b]; omega, .inr (by omega),
      by omega⟩

theorem grid_lt_succ (n : ℕ) : grid n < grid (n + 1) := by
  obtain ⟨b, k, rfl, hb, hk⟩ := exists_binade n
  have hb' : b = 0 ∨ fractionSize ≤ k + 1 := hb.imp_right (by omega)
  rw [Nat.add_assoc, grid_eq hb (by omega), grid_eq hb' (by omega)]
  have hp : (0 : ℚ) < 2 ^ (b - 1074 : ℤ) := zpow_pos (by norm_num) _
  push_cast
  linarith

theorem grid_strictMono : StrictMono grid := strictMono_nat_of_lt_succ grid_lt_succ

theorem grid_zero : grid 0 = 0 := by
  rw [grid, if_pos (by decide)]
  norm_num

theorem grid_nonneg (n : ℕ) : 0 ≤ grid n := by
  rw [← grid_zero]
  exact grid_strictMono.monotone (Nat.zero_le n)

theorem grid_one : grid 1 = 2 ^ (-1074 : ℤ) := by
  have h := grid_eq (b := 0) (k := 1) (.inl rfl) (by decide)
  rw [Nat.zero_mul, Nat.zero_add] at h
  rw [h]
  norm_num

theorem two_fractionSize : ((2 * fractionSize : ℕ) : ℚ) = 2 ^ (53 : ℤ) := by
  norm_num [fractionSize]

theorem grid_infinite : grid infinite = 2 ^ (1024 : ℤ) := by
  have h := grid_eq (b := 2045) (k := 2 * fractionSize) (.inr (by decide)) le_rfl
  rw [two_fractionSize, ← zpow_add₀ (by norm_num)] at h
  exact h

theorem grid_largest : grid (infinite - 1) = 2 ^ (1024 : ℤ) - 2 ^ (971 : ℤ) := by
  have h := grid_eq (b := 2045) (k := 2 * fractionSize - 1) (.inr (by decide)) (by omega)
  rw [Nat.cast_sub (by decide), two_fractionSize, sub_mul, ← zpow_add₀ (by norm_num)] at h
  rw [Nat.cast_one, one_mul] at h
  exact h

/-- The grid point nearest to a number, from the middle between two of them the even one. -/
inductive Rounded (v : ℚ) : ℕ → Prop
  | down {n : ℕ} : grid n ≤ v → v < grid (n + 1) →
      2 * v < grid n + grid (n + 1) ∨ 2 * v = grid n + grid (n + 1) ∧ n % 2 = 0 → Rounded v n
  | up {n : ℕ} : grid n ≤ v → v < grid (n + 1) →
      grid n + grid (n + 1) < 2 * v ∨ 2 * v = grid n + grid (n + 1) ∧ n % 2 = 1 → Rounded v (n + 1)

namespace Rounded

variable {v : ℚ} {r k n : ℕ}

theorem grid_le_or_ge (n k : ℕ) : grid k ≤ grid n ∨ grid (n + 1) ≤ grid k := by
  rcases Nat.lt_or_ge n k with h | h
  · exact .inr (grid_strictMono.monotone h)
  · exact .inl (grid_strictMono.monotone h)

theorem nearest (h : Rounded v r) (k : ℕ) : |grid r - v| ≤ |grid k - v| := by
  cases h with
  | down hl hu hm =>
    have hm' : 2 * v ≤ grid r + grid (r + 1) := by
      rcases hm with hm | ⟨hm, -⟩ <;> linarith
    rw [abs_of_nonpos (by linarith)]
    rcases grid_le_or_ge r k with hk | hk
    · rw [abs_of_nonpos (by linarith)]
      linarith
    · rw [abs_of_nonneg (by linarith)]
      linarith
  | @up n hl hu hm =>
    have hm' : grid n + grid (n + 1) ≤ 2 * v := by
      rcases hm with hm | ⟨hm, -⟩ <;> linarith
    rw [abs_of_nonneg (by linarith)]
    rcases grid_le_or_ge n k with hk | hk
    · rw [abs_of_nonpos (by linarith)]
      linarith
    · rw [abs_of_nonneg (by linarith)]
      linarith

theorem even (h : Rounded v r) (he : |grid k - v| = |grid r - v|) (hne : grid k ≠ grid r) :
    r % 2 = 0 := by
  cases h with
  | down hl hu hm =>
    rcases hm with hm | ⟨-, hr⟩
    · rw [abs_of_nonpos (show grid r - v ≤ 0 by linarith)] at he
      rcases grid_le_or_ge r k with hk | hk
      · rw [abs_of_nonpos (by linarith)] at he
        exact absurd (by linarith) hne
      · rw [abs_of_nonneg (by linarith)] at he
        linarith
    · exact hr
  | @up n hl hu hm =>
    rcases hm with hm | ⟨-, hn⟩
    · rw [abs_of_nonneg (show 0 ≤ grid (n + 1) - v by linarith)] at he
      rcases grid_le_or_ge n k with hk | hk
      · rw [abs_of_nonpos (by linarith)] at he
        linarith
      · rw [abs_of_nonneg (by linarith)] at he
        exact absurd (by linarith) hne
    · omega

theorem lt_infinite_iff (h : Rounded v r) : r < infinite ↔ v < overflow := by
  have hmid : grid (infinite - 1) + grid infinite = 2 * overflow := by
    rw [grid_infinite, grid_largest, overflow, show (971 : ℤ) = 970 + 1 by norm_num,
      zpow_add_one₀ (by norm_num)]
    ring
  have hgap := grid_lt_succ (infinite - 1)
  rw [show infinite - 1 + 1 = infinite by decide] at hgap
  have hbelow : ∀ n, n + 1 < infinite → grid (n + 1) ≤ grid (infinite - 1) :=
    fun n hn ↦ grid_strictMono.monotone (by omega)
  have habove : ∀ n, infinite ≤ n → grid infinite ≤ grid n :=
    fun n hn ↦ grid_strictMono.monotone hn
  constructor
  · intro hr
    cases h with
    | down hl hu hm =>
      rcases Nat.lt_or_ge (r + 1) infinite with hlt | hge
      · have := hbelow r hlt
        linarith
      · obtain rfl : r = infinite - 1 := by omega
        rw [show infinite - 1 + 1 = infinite by decide] at hm
        rcases hm with hm | ⟨-, hodd⟩
        · linarith
        · exact absurd hodd (by decide)
    | @up n hl hu hm =>
      have := hbelow n hr
      linarith
  · intro hv
    by_contra hr
    cases h with
    | down hl hu hm =>
      have := habove r (by omega)
      linarith
    | @up n hl hu hm =>
      rcases Nat.lt_or_ge n infinite with hlt | hge
      · obtain rfl : n = infinite - 1 := by omega
        rw [show infinite - 1 + 1 = infinite by decide] at hm
        rcases hm with hm | ⟨hm, -⟩ <;> linarith
      · have := habove n hge
        linarith

theorem eq_zero (h : Rounded v r) (hv : v ≤ 2 ^ (-1075 : ℤ)) : r = 0 := by
  have h1 : grid 1 = 2 * 2 ^ (-1075 : ℤ) := by
    rw [grid_one, show (-1074 : ℤ) = -1075 + 1 by norm_num, zpow_add_one₀ (by norm_num)]
    ring
  have hp : (0 : ℚ) < 2 ^ (-1075 : ℤ) := zpow_pos (by norm_num) _
  have hzero : ∀ n, grid n ≤ v → n = 0 := by
    intro n hn
    by_contra hne
    have := grid_strictMono.monotone (Nat.one_le_iff_ne_zero.2 hne)
    linarith
  cases h with
  | down hl hu hm => exact hzero r hl
  | @up n hl hu hm =>
    obtain rfl := hzero n hl
    rw [grid_zero, Nat.zero_add, h1] at hm
    rcases hm with hm | ⟨-, hodd⟩
    · linarith
    · cases hodd

end Rounded

theorem abs_signed_mul (b : Bool) (v : ℚ) : |signed b * v| = |v| := by
  cases b <;> simp [signed]

theorem dist_signed (b : Bool) (v w : ℚ) : |signed b * v - signed b * w| = |v - w| := by
  rw [← mul_sub, abs_signed_mul]

theorem dist_signed_of_ne {b c : Bool} (h : b ≠ c) {v w : ℚ} (hv : 0 ≤ v) (hw : 0 ≤ w) :
    |signed b * v - signed c * w| = v + w := by
  have hs : signed b * v - signed c * w = signed b * (v + w) := by
    cases b <;> cases c <;> simp_all [signed]
    ring
  rw [hs, abs_signed_mul, abs_of_nonneg (by linarith)]

theorem dist_le (b c : Bool) {v w : ℚ} (hv : 0 ≤ v) (hw : 0 ≤ w) :
    |v - w| ≤ |signed b * v - signed c * w| := by
  by_cases h : b = c
  · rw [h, dist_signed]
  · rw [dist_signed_of_ne h hv hw, abs_le]
    constructor <;> linarith

theorem eq_of_dist_eq {b c : Bool} {v w : ℚ} (hv : 0 < v) (hw : 0 < w)
    (h : |signed b * v - signed c * w| = |v - w|) : b = c := by
  by_contra hbc
  rw [dist_signed_of_ne hbc hv.le hw.le] at h
  have hlt : |v - w| < v + w := by
    rw [abs_lt]
    constructor <;> linarith
  linarith

theorem Rounded.roundsTo {v : ℚ} {r : ℕ} (hv : 0 ≤ v) (h : Rounded v r) (negative : Bool) :
    RoundsTo negative (signed negative * v) (ofMagnitude negative (min r infinite)) := by
  have hb : min r infinite < signBit := lt_of_le_of_lt (min_le_right _ _) (by decide)
  have hn := negative_ofMagnitude (b := negative) hb
  have hm := magnitude_ofMagnitude (b := negative) hb
  have hq : |signed negative * v| = v := by rw [abs_signed_mul, abs_of_nonneg hv]
  have hx : v < overflow →
      (ofMagnitude negative (min r infinite)).value = signed negative * grid r := by
    intro hlt
    rw [value_eq, hn, hm, min_eq_left (h.lt_infinite_iff.2 hlt).le]
  refine { sign := hn, overflows := ?_, finite := ?_, nearest := ?_, even := ?_, underflow := ?_ }
  · intro hover
    rw [hq] at hover
    have hr : infinite ≤ r := not_lt.1 fun hr ↦ absurd (h.lt_infinite_iff.1 hr) (not_lt.2 hover)
    rw [min_eq_right hr]
    rfl
  · intro hlt
    rw [hq] at hlt
    rw [hm, min_eq_left (h.lt_infinite_iff.2 hlt).le]
    exact h.lt_infinite_iff.2 hlt
  · intro hlt y _
    rw [hq] at hlt
    rw [hx hlt, dist_signed, value_eq y]
    exact (h.nearest _).trans (dist_le _ _ (grid_nonneg _) hv)
  · intro hlt y _ htie hne
    rw [hq] at hlt
    rw [significand_mod_two, hm, min_eq_left (h.lt_infinite_iff.2 hlt).le]
    rw [hx hlt, dist_signed, value_eq y] at htie
    rw [hx hlt, value_eq y] at hne
    have hle := dist_le y.negative negative (grid_nonneg y.magnitude) hv
    have hgrid : |grid y.magnitude - v| = |grid r - v| :=
      le_antisymm (hle.trans htie.le) (h.nearest _)
    refine h.even hgrid fun he ↦ ?_
    rw [he] at htie hne
    have hpos : 0 < v := by
      refine lt_of_le_of_ne hv fun h0 ↦ ?_
      have hr : r = 0 := h.eq_zero (by rw [← h0]; exact zpow_nonneg (by norm_num) _)
      rw [hr, grid_zero, mul_zero, mul_zero] at hne
      exact hne rfl
    have hr : 0 < grid r := by
      refine lt_of_le_of_ne (grid_nonneg r) fun h0 ↦ ?_
      rw [← h0, mul_zero, mul_zero] at hne
      exact hne rfl
    rw [eq_of_dist_eq hr hpos htie] at hne
    exact hne rfl
  · intro hle
    rw [hq] at hle
    rw [h.eq_zero hle]
    rfl

theorem roundsTo_of_overflow {v : ℚ} (hv : overflow ≤ v) (negative : Bool) :
    RoundsTo negative (signed negative * v) (infinity negative) := by
  have hpos : (2 : ℚ) ^ (-1075 : ℤ) < overflow := by
    have hlt : (2 : ℚ) ^ (-1075 : ℤ) < 2 ^ (970 : ℤ) :=
      zpow_lt_zpow_right₀ (by norm_num) (by norm_num)
    have htwo : (2 : ℚ) ^ (971 : ℤ) = 2 ^ (970 : ℤ) * 2 := zpow_add_one₀ (by norm_num) 970
    have hle : (2 : ℚ) ^ (971 : ℤ) ≤ 2 ^ (1024 : ℤ) :=
      zpow_le_zpow_right₀ (by norm_num) (by norm_num)
    rw [overflow, lt_sub_iff_add_lt]
    calc (2 : ℚ) ^ (-1075 : ℤ) + 2 ^ (970 : ℤ) < 2 ^ (970 : ℤ) + 2 ^ (970 : ℤ) := by gcongr
      _ = 2 ^ (971 : ℤ) := by rw [htwo, mul_two]
      _ ≤ 2 ^ (1024 : ℤ) := hle
  have hq : |signed negative * v| = v := by
    rw [abs_signed_mul, abs_of_nonneg]
    exact (zpow_nonneg (by norm_num) _).trans (hpos.le.trans hv)
  have hnot : ¬ |signed negative * v| < overflow := by
    rw [hq]
    exact not_lt.2 hv
  exact {
    sign := negative_ofMagnitude (by decide)
    overflows := fun _ ↦ rfl
    finite := fun h ↦ absurd h hnot
    nearest := fun h ↦ absurd h hnot
    even := fun h ↦ absurd h hnot
    underflow := fun h ↦ by
      rw [hq] at h
      exact absurd (hpos.trans_le hv) (not_lt.2 h) }

theorem rounded_zero {v : ℚ} (hv : 0 ≤ v) (h : v < 2 ^ (-1075 : ℤ)) : Rounded v 0 := by
  have h1 : grid 1 = 2 * 2 ^ (-1075 : ℤ) := by
    rw [grid_one, show (-1074 : ℤ) = -1075 + 1 by norm_num, zpow_add_one₀ (by norm_num)]
    ring
  refine .down ?_ ?_ (.inl ?_)
  · rwa [grid_zero]
  · rw [h1]
    linarith
  · rw [grid_zero, h1]
    linarith

namespace RoundsTo

variable {negative : Bool} {q : ℚ} {x y : Binary64}

/-- Of two even numbers equally near, the one between them is nearer. -/
theorem magnitude_le (hx : RoundsTo negative q x) (hy : RoundsTo negative q y)
    (hq : |q| < overflow) : x.magnitude ≤ y.magnitude := by
  by_contra hlt
  rw [not_le] at hlt
  have hxf := hx.finite hq
  have hyf := hy.finite hq
  have htie : |y.value - q| = |x.value - q| :=
    le_antisymm (hy.nearest hq x hxf) (hx.nearest hq y hyf)
  have hg := grid_strictMono hlt
  have hne : y.value ≠ x.value := by
    rw [value_eq, value_eq, hx.sign, hy.sign]
    cases negative with
    | true => simpa [signed] using hg.ne
    | false => simpa [signed] using hg.ne
  have hxe := hx.even hq y hyf htie hne
  have hye := hy.even hq x hxf htie.symm hne.symm
  rw [significand_mod_two] at hxe hye
  have hz : y.magnitude + 1 < infinite := by omega
  have hzs : y.magnitude + 1 < signBit := hz.trans (by decide)
  have hzx := hx.nearest hq (ofMagnitude negative (y.magnitude + 1))
    (by rwa [magnitude_ofMagnitude hzs])
  have hyz := grid_strictMono (Nat.lt_succ_self y.magnitude)
  have hzx' := grid_strictMono (show y.magnitude + 1 < x.magnitude by omega)
  obtain ⟨p, hp⟩ : ∃ p, q = signed negative * p :=
    ⟨signed negative * q, by cases negative <;> simp [signed]⟩
  rw [value_eq, value_eq, hx.sign, hy.sign, hp, dist_signed, dist_signed] at htie
  rw [value_eq, value_eq, hx.sign, negative_ofMagnitude hzs, magnitude_ofMagnitude hzs, hp,
    dist_signed, dist_signed] at hzx
  have hmid : grid y.magnitude + grid x.magnitude = 2 * p := by
    rcases abs_eq_abs.1 htie with h | h
    · linarith
    · linarith
  rw [abs_of_nonneg (show 0 ≤ grid x.magnitude - p by linarith), le_abs] at hzx
  rcases hzx with h | h
  · linarith
  · linarith

theorem unique (hx : RoundsTo negative q x) (hy : RoundsTo negative q y) : x = y := by
  rcases le_or_gt overflow |q| with hq | hq
  · rw [hx.overflows hq, hy.overflows hq]
  · rw [← ofMagnitude_magnitude x, ← ofMagnitude_magnitude y, hx.sign, hy.sign,
      (hx.magnitude_le hy hq).antisymm (hy.magnitude_le hx hq)]

end RoundsTo

end ThreeAddress.Binary64
