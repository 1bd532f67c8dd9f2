import ThreeAddress.Binary64.Leading
import ThreeAddress.Proofs.Binary64.Values

namespace ThreeAddress.Binary64

/-- Bits that are left out below `bits` fill less than the unit `g` of what is kept. -/
structure Tail (bits g : ℕ) (sticky : Bool) (rest : ℚ) : Prop where
  nonneg : 0 ≤ rest
  lt : rest < g
  sticky_iff : sticky = true ↔ 0 < rest
  dvd : g ∣ bits

variable {bits g s t n : ℕ} {sticky : Bool} {rest : ℚ}

theorem add_le_of_dvd {g r m : ℕ} (hr : g ∣ r) (hm : g ∣ m) (h : r < m) : r + g ≤ m :=
  Nat.le_of_lt_add_of_dvd (Nat.add_lt_add_right h g) (hr.add dvd_rfl) hm

theorem Tail.eq_zero (h : Tail bits g sticky rest) (hs : sticky = false) : rest = 0 := by
  refine le_antisymm (not_lt.1 fun hpos ↦ ?_) h.nonneg
  rw [h.sticky_iff.2 hpos] at hs
  cases hs

/-- What is left out does not carry the remainder of a shift over the next unit, nor over half of
it. -/
theorem Tail.remainder (h : Tail bits g sticky rest) (hg : sticky = true → 2 * g ∣ 2 ^ s) :
    ((bits % 2 ^ s : ℕ) : ℚ) + rest < 2 ^ s ∧
      (2 * (bits % 2 ^ s) < 2 ^ s → 2 * (((bits % 2 ^ s : ℕ) : ℚ) + rest) < 2 ^ s) := by
  have hlt : bits % 2 ^ s < 2 ^ s := Nat.mod_lt _ (Nat.two_pow_pos s)
  cases hs : sticky with
  | false =>
    rw [h.eq_zero hs, add_zero]
    refine ⟨by exact_mod_cast hlt, fun h2 ↦ ?_⟩
    exact_mod_cast h2
  | true =>
    have h2g := hg hs
    have hdvd : g ∣ bits % 2 ^ s := (Nat.dvd_mod_iff (dvd_of_mul_left_dvd h2g)).2 h.dvd
    have hle := add_le_of_dvd hdvd (dvd_of_mul_left_dvd h2g) hlt
    have hle' : ((bits % 2 ^ s : ℕ) : ℚ) + g ≤ 2 ^ s := by exact_mod_cast hle
    have hrest := h.lt
    refine ⟨by linarith, fun h2 ↦ ?_⟩
    have hle2 := add_le_of_dvd (mul_dvd_mul_left 2 hdvd) h2g h2
    have hle2' : 2 * ((bits % 2 ^ s : ℕ) : ℚ) + 2 * g ≤ 2 ^ s := by exact_mod_cast hle2
    linarith

theorem shiftDown_eq (m s : ℕ) (sticky : Bool) :
    shiftDown m s sticky =
      if 2 ^ s < 2 * (m % 2 ^ s) ∨
          2 * (m % 2 ^ s) = 2 ^ s ∧ (sticky = true ∨ m / 2 ^ s % 2 = 1) then
        m / 2 ^ s + 1
      else m / 2 ^ s := by
  simp only [shiftDown, Nat.shiftRight_eq_div_pow, Nat.one_shiftLeft]

theorem shiftDown_rounds (h : Tail bits g sticky rest) (hg : sticky = true → 2 * g ∣ 2 ^ s) :
    ((bits / 2 ^ s : ℕ) : ℚ) * 2 ^ s ≤ bits + rest ∧
    bits + rest < ((bits / 2 ^ s : ℕ) + 1 : ℚ) * 2 ^ s ∧
    (shiftDown bits s sticky = bits / 2 ^ s ∧
        (2 * (bits + rest) < (2 * (bits / 2 ^ s : ℕ) + 1) * 2 ^ s ∨
          2 * (bits + rest) = (2 * (bits / 2 ^ s : ℕ) + 1) * 2 ^ s ∧ bits / 2 ^ s % 2 = 0) ∨
      shiftDown bits s sticky = bits / 2 ^ s + 1 ∧
        ((2 * (bits / 2 ^ s : ℕ) + 1) * 2 ^ s < 2 * (bits + rest) ∨
          2 * (bits + rest) = (2 * (bits / 2 ^ s : ℕ) + 1) * 2 ^ s ∧ bits / 2 ^ s % 2 = 1)) := by
  obtain ⟨hr, hhalf⟩ := h.remainder hg
  have hb : (bits : ℚ) = (bits / 2 ^ s : ℕ) * 2 ^ s + (bits % 2 ^ s : ℕ) := by
    exact_mod_cast (Nat.div_add_mod' bits (2 ^ s)).symm
  have hn := h.nonneg
  have hm : (0 : ℚ) ≤ (bits % 2 ^ s : ℕ) := Nat.cast_nonneg _
  refine ⟨by linarith, by linarith, ?_⟩
  rw [shiftDown_eq]
  by_cases hup : 2 ^ s < 2 * (bits % 2 ^ s)
  · have hup' : (2 : ℚ) ^ s < 2 * (bits % 2 ^ s : ℕ) := by exact_mod_cast hup
    rw [if_pos (.inl hup)]
    exact .inr ⟨rfl, .inl (by linarith)⟩
  by_cases hmid : 2 * (bits % 2 ^ s) = 2 ^ s
  · have hmid' : 2 * ((bits % 2 ^ s : ℕ) : ℚ) = 2 ^ s := by exact_mod_cast hmid
    cases hs : sticky with
    | true =>
      have hpos := h.sticky_iff.1 hs
      rw [if_pos (.inr ⟨hmid, .inl rfl⟩)]
      exact .inr ⟨rfl, .inl (by linarith)⟩
    | false =>
      have hzero := h.eq_zero hs
      rcases Nat.mod_two_eq_zero_or_one (bits / 2 ^ s) with hp | hp
      · rw [if_neg (by simp [hp, hup])]
        exact .inl ⟨rfl, .inr ⟨by linarith, hp⟩⟩
      · rw [if_pos (.inr ⟨hmid, .inr hp⟩)]
        exact .inr ⟨rfl, .inr ⟨by linarith, hp⟩⟩
  · have hlow := hhalf (by omega)
    rw [if_neg (by simp [hmid, hup])]
    exact .inl ⟨rfl, .inl (by linarith)⟩

theorem rounded_shiftDown {b : ℕ} {e : ℤ} (h : Tail bits g sticky rest)
    (hg : sticky = true → 2 * g ∣ 2 ^ s) (hb : b = 0 ∨ fractionSize ≤ bits / 2 ^ s)
    (hk : bits / 2 ^ s < 2 * fractionSize) (he : e + s = b - 1074) :
    Rounded ((bits + rest) * 2 ^ e) (b * fractionSize + shiftDown bits s sticky) := by
  obtain ⟨hl, hu, hr⟩ := shiftDown_rounds h hg
  have hp : (0 : ℚ) < 2 ^ e := zpow_pos (by norm_num) e
  have hunit : (2 : ℚ) ^ (b - 1074 : ℤ) = 2 ^ s * 2 ^ e := by
    rw [← he, zpow_add₀ (by norm_num), zpow_natCast, mul_comm]
  have hn : grid (b * fractionSize + bits / 2 ^ s) = (bits / 2 ^ s : ℕ) * 2 ^ s * 2 ^ e := by
    rw [grid_eq hb hk.le, hunit, mul_assoc]
  have hn' : grid (b * fractionSize + bits / 2 ^ s + 1) =
      ((bits / 2 ^ s : ℕ) + 1) * 2 ^ s * 2 ^ e := by
    rw [Nat.add_assoc, grid_eq (hb.imp_right (by omega)) hk, hunit, mul_assoc]
    push_cast
    ring
  have hle : grid (b * fractionSize + bits / 2 ^ s) ≤ (bits + rest) * 2 ^ e := by
    rw [hn]
    exact mul_le_mul_of_nonneg_right hl hp.le
  have hlt : (bits + rest) * 2 ^ e < grid (b * fractionSize + bits / 2 ^ s + 1) := by
    rw [hn']
    exact mul_lt_mul_of_pos_right hu hp
  have hsum : grid (b * fractionSize + bits / 2 ^ s) + grid (b * fractionSize + bits / 2 ^ s + 1) =
      (2 * (bits / 2 ^ s : ℕ) + 1) * 2 ^ s * 2 ^ e := by
    rw [hn, hn']
    ring
  have hparity : (b * fractionSize + bits / 2 ^ s) % 2 = bits / 2 ^ s % 2 := by
    rw [fractionSize]
    omega
  rcases hr with ⟨hd, hm⟩ | ⟨hd, hm⟩
  · rw [hd]
    refine .down hle hlt ?_
    rw [hsum, hparity, ← mul_assoc]
    rcases hm with hm | ⟨hm, heven⟩
    · exact .inl (mul_lt_mul_of_pos_right hm hp)
    · exact .inr ⟨by rw [hm], heven⟩
  · rw [hd, ← Nat.add_assoc]
    refine .up hle hlt ?_
    rw [hsum, hparity, ← mul_assoc]
    rcases hm with hm | ⟨hm, hodd⟩
    · exact .inl (mul_lt_mul_of_pos_right hm hp)
    · exact .inr ⟨by rw [hm], hodd⟩

theorem shiftDown_le (m s : ℕ) (sticky : Bool) :
    m / 2 ^ s ≤ shiftDown m s sticky ∧ shiftDown m s sticky ≤ m / 2 ^ s + 1 := by
  rw [shiftDown_eq]
  split <;> omega

theorem saturate_eq (n : ℤ) : saturate n = max (-2 ^ 63) (min n (2 ^ 63 - 1)) := rfl

theorem saturate_of_le {n : ℤ} (hl : -2 ^ 63 ≤ n) (hu : n < 2 ^ 63) : saturate n = n := by
  rw [saturate_eq]
  omega

namespace Leading

variable {a : Leading} {v : ℚ}

/-- What has been kept of a number: all but a fraction `rest` of its last bit. -/
structure Holds (a : Leading) (v : ℚ) (rest : ℚ) : Prop where
  eq : v = (a.bits + rest) * 2 ^ a.scale
  tail : Tail a.bits 1 a.sticky rest
  filled : a.sticky = true → 2 ^ 60 ≤ a.bits
  bits_lt : a.bits < 2 ^ 64

def zeros (a : Leading) : ℕ := 63 - a.bits.log2

def normal (a : Leading) : ℕ := a.bits * 2 ^ a.zeros

/-- The power of two of the leading bit. -/
def top (a : Leading) : ℤ := a.scale - a.zeros + 63

theorem normal_bounds (hpos : a.bits ≠ 0) (hlt : a.bits < 2 ^ 64) :
    2 ^ 63 ≤ a.normal ∧ a.normal < 2 ^ 64 := by
  have hlog : a.bits.log2 < 64 := (Nat.log2_lt hpos).2 hlt
  have hle := Nat.log2_self_le hpos
  have hlt := Nat.lt_log2_self (n := a.bits)
  have h63 : 2 ^ a.bits.log2 * 2 ^ a.zeros = 2 ^ 63 := by
    rw [← Nat.pow_add, zeros, Nat.add_sub_of_le (by omega)]
  have h64 : 2 ^ (a.bits.log2 + 1) * 2 ^ a.zeros = 2 ^ 64 := by
    rw [Nat.pow_succ, Nat.mul_right_comm, h63, ← Nat.pow_succ]
  constructor
  · rw [← h63]
    exact Nat.mul_le_mul_right _ hle
  · rw [← h64]
    exact Nat.mul_lt_mul_of_pos_right hlt (Nat.two_pow_pos _)

namespace Holds

variable {rest : ℚ}

theorem normalTail (h : a.Holds v rest) :
    Tail a.normal (2 ^ a.zeros) a.sticky (rest * 2 ^ a.zeros) := by
  have hp : (0 : ℚ) < 2 ^ a.zeros := by positivity
  have hlt := h.tail.lt
  rw [Nat.cast_one] at hlt
  exact {
    nonneg := mul_nonneg h.tail.nonneg hp.le
    lt := by
      push_cast
      nlinarith
    sticky_iff := h.tail.sticky_iff.trans (mul_pos_iff_of_pos_right hp).symm
    dvd := dvd_mul_left _ _ }

theorem eq_normal (h : a.Holds v rest) :
    v = (a.normal + rest * 2 ^ a.zeros) * 2 ^ (a.top - 63) := by
  have he : a.top - 63 = a.scale - a.zeros := by
    rw [top]
    ring
  rw [h.eq, he, zpow_sub₀ (by norm_num), zpow_natCast, normal]
  have hp : (2 : ℚ) ^ a.zeros ≠ 0 := by positivity
  push_cast
  rw [← add_mul, mul_assoc, mul_div_cancel₀ _ hp]

/-- A number with bits left out has its leading bit near the top already. -/
theorem zeros_le (h : a.Holds v rest) (hs : a.sticky = true) : a.zeros ≤ 3 := by
  have hb := h.filled hs
  have hl : 60 ≤ a.bits.log2 := (Nat.le_log2 (by omega)).2 hb
  rw [zeros]
  omega

theorem two_mul_dvd (h : a.Holds v rest) {s : ℕ} (hs : 4 ≤ s) :
    a.sticky = true → 2 * 2 ^ a.zeros ∣ 2 ^ s := by
  intro hsticky
  have hz := h.zeros_le hsticky
  rw [← Nat.pow_succ']
  exact Nat.pow_dvd_pow 2 (by omega)

theorem lt_top (h : a.Holds v rest) (hpos : a.bits ≠ 0) : v < 2 ^ (a.top + 1) := by
  have hn := (normal_bounds hpos h.bits_lt).2
  have hz : 2 ^ a.zeros ∣ 2 ^ 64 := Nat.pow_dvd_pow 2 (by rw [zeros]; omega)
  have hle := add_le_of_dvd h.normalTail.dvd hz hn
  have hle' : (a.normal : ℚ) + (2 ^ a.zeros : ℕ) ≤ 2 ^ 64 := by exact_mod_cast hle
  have hlt := h.normalTail.lt
  have hp : (0 : ℚ) < 2 ^ (a.top - 63) := zpow_pos (by norm_num) _
  have h64 : (2 : ℚ) ^ (a.top + 1) = 2 ^ 64 * 2 ^ (a.top - 63) := by
    rw [show a.top + 1 = 64 + (a.top - 63) by ring, zpow_add₀ (by norm_num)]
    norm_num
  rw [h.eq_normal, h64]
  exact mul_lt_mul_of_pos_right (by linarith) hp

end Holds

/-- The scale is far from the bounds of 64 bits. -/
def Moderate (a : Leading) : Prop := -2 ^ 60 ≤ a.scale ∧ a.scale ≤ 2 ^ 60

theorem saturate_top (h : a.Moderate) : saturate (saturate (a.scale - a.zeros) + 63) = a.top := by
  obtain ⟨hl, hu⟩ := h
  have hz : a.zeros ≤ 63 := by
    rw [zeros]
    omega
  rw [saturate_of_le (n := a.scale - a.zeros) (by omega) (by omega), top]
  exact saturate_of_le (by omega) (by omega)

/-- A carry into the next binade keeps the fraction at zero, and one out of the last is infinite. -/
theorem carry_eq {top : ℤ} {kept : ℕ} (ht : -1022 ≤ top) (hl : fractionSize ≤ kept)
    (hu : kept ≤ 2 * fractionSize) :
    (if 1023 < top then infinite
      else if 2047 ≤ (top + if kept = 2 * fractionSize then 1024 else 1023).toNat then infinite
      else (top + if kept = 2 * fractionSize then 1024 else 1023).toNat * fractionSize +
        (if kept = 2 * fractionSize then kept / 2 else kept) % fractionSize) =
      min ((top + 1022).toNat * fractionSize + kept) infinite := by
  simp only [infinite, fractionSize] at *
  by_cases hc : kept = 2 * 0x10000000000000
  · simp only [hc, ↓reduceIte]
    split
    · omega
    · split <;> omega
  · simp only [hc, ↓reduceIte]
    split
    · omega
    · split <;> omega

theorem round_normal (h : a.Moderate) (hpos : a.bits ≠ 0) (hlt : a.bits < 2 ^ 64)
    (ht : -1022 ≤ a.top) :
    a.round =
      min ((a.top + 1022).toNat * fractionSize + shiftDown a.normal 11 a.sticky) infinite := by
  obtain ⟨hnl, hnu⟩ := normal_bounds hpos hlt
  obtain ⟨hdl, hdu⟩ := shiftDown_le a.normal 11 a.sticky
  have hz : 63 - a.bits.log2 = a.zeros := rfl
  have hn : a.bits * 2 ^ a.zeros = a.normal := rfl
  have h11 : Int.toNat 11 = 11 := rfl
  have hl : fractionSize ≤ shiftDown a.normal 11 a.sticky := by
    rw [fractionSize]
    omega
  have hu : shiftDown a.normal 11 a.sticky ≤ 2 * fractionSize := by
    rw [fractionSize]
    omega
  rw [← carry_eq ht hl hu]
  simp only [round, hpos, ↓reduceIte, hz, Nat.shiftLeft_eq, hn, saturate_top h, ht, h11,
    beq_iff_eq, show ¬ (64 : ℤ) < 11 by decide]

theorem round_subnormal (h : a.Moderate) (hpos : a.bits ≠ 0) (ht : a.top < -1022)
    (hw : -1075 ≤ a.top) :
    a.round = shiftDown a.normal (-1011 - a.top).toNat a.sticky := by
  have hz : 63 - a.bits.log2 = a.zeros := rfl
  have hn : a.bits * 2 ^ a.zeros = a.normal := rfl
  simp only [round, hpos, ↓reduceIte, hz, Nat.shiftLeft_eq, hn, saturate_top h, not_le.2 ht]
  rw [if_neg (by omega), if_neg (by omega)]

theorem round_tiny (h : a.Moderate) (hpos : a.bits ≠ 0) (ht : a.top < -1075) : a.round = 0 := by
  have hz : 63 - a.bits.log2 = a.zeros := rfl
  have hn : ¬ -1022 ≤ a.top := by omega
  simp only [round, hpos, ↓reduceIte, hz, saturate_top h, hn]
  rw [if_neg (by omega), if_pos (by omega)]

theorem Holds.rounded {rest : ℚ} (h : a.Holds v rest) (hm : a.Moderate) :
    ∃ r, Rounded v r ∧ a.round = min r infinite := by
  by_cases hpos : a.bits = 0
  · have hs : a.sticky = false := by
      cases hs : a.sticky with
      | false => rfl
      | true =>
        have := h.filled hs
        omega
    have hv : v = 0 := by
      rw [h.eq, h.tail.eq_zero hs, hpos]
      norm_num
    refine ⟨0, ?_, ?_⟩
    · rw [hv]
      exact rounded_zero le_rfl (zpow_pos (by norm_num) _)
    · simp only [round, hpos, ↓reduceIte, Nat.zero_min]
  obtain ⟨hnl, hnu⟩ := normal_bounds hpos h.bits_lt
  rcases lt_or_ge a.top (-1075) with ht | ht
  · have hv0 : 0 ≤ v := by
      have := h.tail.nonneg
      rw [h.eq]
      positivity
    refine ⟨0, rounded_zero hv0 ?_, by rw [round_tiny hm hpos ht, Nat.zero_min]⟩
    exact (h.lt_top hpos).trans_le (zpow_le_zpow_right₀ (by norm_num) (by omega))
  rcases lt_or_ge a.top (-1022) with ht' | ht'
  · obtain ⟨s, hs⟩ : ∃ s : ℕ, (-1011 - a.top).toNat = s := ⟨_, rfl⟩
    have hk : a.normal / 2 ^ s < fractionSize := by
      have hle : a.normal / 2 ^ s ≤ a.normal / 2 ^ 12 :=
        Nat.div_le_div_left (Nat.pow_le_pow_right (by norm_num) (by omega)) (by norm_num)
      rw [fractionSize]
      omega
    have hr := rounded_shiftDown (b := 0) (e := a.top - 63) h.normalTail
      (h.two_mul_dvd (s := s) (by omega)) (.inl rfl) (by omega) (by push_cast; omega)
    rw [← h.eq_normal, Nat.zero_mul, Nat.zero_add] at hr
    refine ⟨_, hr, ?_⟩
    rw [round_subnormal hm hpos ht' ht, hs, min_eq_left]
    have := (shiftDown_le a.normal s a.sticky).2
    simp only [infinite, fractionSize] at *
    omega
  · have hr := rounded_shiftDown (b := (a.top + 1022).toNat) (e := a.top - 63) (s := 11)
      h.normalTail (h.two_mul_dvd (by norm_num)) (.inr (by rw [fractionSize]; omega))
      (by rw [fractionSize]; omega) (by push_cast; omega)
    rw [← h.eq_normal] at hr
    exact ⟨_, hr, round_normal hm hpos h.bits_lt ht'⟩

end Leading

end ThreeAddress.Binary64
