import Mathlib.Tactic.LinearCombination
import ThreeAddress.Proofs.Binary64.Leading

namespace ThreeAddress.Binary64

def hexValue (digits : List ℕ) : ℕ := digits.foldl (fun n d ↦ 16 * n + d) 0

namespace Leading

/-- Of the number `m` all but the last `k` digits are kept, which is all it can be. -/
structure Reads (a : Leading) (m k : ℕ) : Prop where
  bits_eq : a.bits = m / 16 ^ k
  sticky_iff : a.sticky = true ↔ m % 16 ^ k ≠ 0
  filled : k ≠ 0 → 2 ^ 60 ≤ a.bits
  bits_lt : a.bits < 2 ^ 64

variable {a : Leading} {m k d : ℕ}

theorem full_iff : a.full = true ↔ 2 ^ 60 ≤ a.bits := by
  rw [full, bne_iff_ne, Nat.shiftRight_eq_div_pow, ne_eq, Nat.div_eq_zero_iff]
  omega

namespace Reads

theorem start (e : ℤ) : Reads { scale := e } 0 0 where
  bits_eq := rfl
  sticky_iff := by simp
  filled h := absurd rfl h
  bits_lt := by norm_num

theorem eq_zero_iff (h : a.Reads m k) : a.bits = 0 ↔ m = 0 := by
  constructor
  · intro hb
    have hk : k = 0 := by
      by_contra hk
      have := h.filled hk
      omega
    rw [h.bits_eq, hk, Nat.pow_zero, Nat.div_one] at hb
    exact hb
  · rintro rfl
    rw [h.bits_eq, Nat.zero_div]

theorem leave (h : a.Reads m k) (hd : d < 16) (hf : a.full = true) {b : Leading}
    (hb : b.bits = a.bits) (hs : b.sticky = (a.sticky || d != 0)) :
    b.Reads (16 * m + d) (k + 1) where
  bits_eq := by
    rw [hb, h.bits_eq, Nat.pow_succ', ← Nat.div_div_eq_div_mul]
    congr 1
    omega
  sticky_iff := by
    have hm : (16 * m + d) % 16 ^ (k + 1) = 16 * (m % 16 ^ k) + d := by
      have hq : (16 * m + d) / 16 = m := by omega
      have hr : (16 * m + d) % 16 = d := by omega
      rw [Nat.pow_succ', Nat.mod_mul, hq, hr, Nat.add_comm]
    rw [hs, hm, Bool.or_eq_true, h.sticky_iff, bne_iff_ne]
    omega
  filled _ := by
    rw [hb]
    exact full_iff.1 hf
  bits_lt := hb ▸ h.bits_lt

theorem take (h : a.Reads m k) (hd : d < 16) (hf : a.full = false) {b : Leading}
    (hb : b.bits = 16 * a.bits + d) (hs : b.sticky = a.sticky) :
    b.Reads (16 * m + d) k := by
  have hlt : a.bits < 2 ^ 60 := by
    rw [← Bool.not_eq_true, full_iff] at hf
    omega
  obtain rfl : k = 0 := by
    by_contra hk
    have := h.filled hk
    omega
  have hm : a.bits = m := by rw [h.bits_eq, Nat.pow_zero, Nat.div_one]
  exact {
    bits_eq := by rw [hb, hm, Nat.pow_zero, Nat.div_one]
    sticky_iff := by
      rw [hs, h.sticky_iff, Nat.pow_zero, Nat.mod_one, Nat.mod_one]
    filled := fun hk ↦ absurd rfl hk
    bits_lt := by omega }

end Reads

/-- An operation that takes in digits, each of them `places` places after the point. -/
structure Adds (add : Leading → ℕ → Leading) (places : ℕ) : Prop where
  reads {a : Leading} {m k d : ℕ} : a.Reads m k → d < 16 → ∃ k', (add a d).Reads (16 * m + d) k' ∧
    (a.Moderate → (add a d).scale = a.scale + 4 * ((k' : ℤ) - k - places))
  scale_le {a : Leading} {d : ℕ} : saturate a.scale = a.scale →
    saturate (add a d).scale = (add a d).scale ∧
      a.scale - 4 ≤ (add a d).scale ∧ (add a d).scale ≤ a.scale + 4

theorem saturate_bounds (n : ℤ) : -2 ^ 63 ≤ saturate n ∧ saturate n < 2 ^ 63 := by
  rw [saturate_eq]
  omega

theorem saturate_saturate (n : ℤ) : saturate (saturate n) = saturate n :=
  saturate_of_le (saturate_bounds n).1 (saturate_bounds n).2

theorem saturate_near {n c : ℤ} (h : saturate n = n) (hl : -4 ≤ c) (hu : c ≤ 4) :
    n - 4 ≤ saturate (n + c) ∧ saturate (n + c) ≤ n + 4 := by
  have hn := saturate_bounds n
  rw [h] at hn
  rw [saturate_eq]
  omega

theorem addWhole_of_full (h : a.full = true) (d : ℕ) : a.addWhole d =
    { a with sticky := a.sticky || d != 0, scale := saturate (a.scale + 4) } := by
  rw [addWhole, if_pos h]

theorem addWhole_of_room (h : a.full = false) (d : ℕ) :
    a.addWhole d = { a with bits := 16 * a.bits + d } := by
  rw [addWhole, h, if_neg Bool.false_ne_true]

theorem addPlace_of_full (h : a.full = true) (d : ℕ) :
    a.addPlace d = { a with sticky := a.sticky || d != 0 } := by
  rw [addPlace, if_pos h]

theorem addPlace_of_room (h : a.full = false) (d : ℕ) : a.addPlace d =
    { a with bits := 16 * a.bits + d, scale := saturate (a.scale + -4) } := by
  rw [addPlace, h, if_neg Bool.false_ne_true]
  rfl

theorem adds_addWhole : Adds addWhole 0 where
  reads {a m k d} h hd := by
    cases hf : a.full with
    | true =>
      rw [addWhole_of_full hf]
      refine ⟨k + 1, h.leave hd hf rfl rfl, ?_⟩
      rintro ⟨hl, hu⟩
      rw [saturate_of_le (by omega) (by omega)]
      push_cast
      ring
    | false =>
      rw [addWhole_of_room hf]
      refine ⟨k, h.take hd hf rfl rfl, fun _ ↦ ?_⟩
      push_cast
      ring
  scale_le {a d} h := by
    cases hf : a.full with
    | true =>
      rw [addWhole_of_full hf]
      exact ⟨saturate_saturate _, saturate_near h (by norm_num) (by norm_num)⟩
    | false =>
      rw [addWhole_of_room hf]
      exact ⟨h, Int.sub_le_self _ (by norm_num), Int.le_add_of_nonneg_right (by norm_num)⟩

theorem adds_addPlace : Adds addPlace 1 where
  reads {a m k d} h hd := by
    cases hf : a.full with
    | true =>
      rw [addPlace_of_full hf]
      refine ⟨k + 1, h.leave hd hf rfl rfl, fun _ ↦ ?_⟩
      push_cast
      ring
    | false =>
      rw [addPlace_of_room hf]
      refine ⟨k, h.take hd hf rfl rfl, ?_⟩
      rintro ⟨hl, hu⟩
      rw [saturate_of_le (by omega) (by omega)]
      push_cast
      ring
  scale_le {a d} h := by
    cases hf : a.full with
    | true =>
      rw [addPlace_of_full hf]
      exact ⟨h, Int.sub_le_self _ (by norm_num), Int.le_add_of_nonneg_right (by norm_num)⟩
    | false =>
      rw [addPlace_of_room hf]
      exact ⟨saturate_saturate _, saturate_near h (by norm_num) (by norm_num)⟩

variable {add : Leading → ℕ → Leading} {places : ℕ} {digits : List ℕ}

theorem Adds.foldl_scale_le (h : Adds add places) (hs : saturate a.scale = a.scale)
    (digits : List ℕ) :
    saturate (digits.foldl add a).scale = (digits.foldl add a).scale ∧
      a.scale - 4 * digits.length ≤ (digits.foldl add a).scale ∧
      (digits.foldl add a).scale ≤ a.scale + 4 * digits.length := by
  induction digits generalizing a with
  | nil => simp [hs]
  | cons d digits ih =>
    obtain ⟨hs', hl, hu⟩ := h.scale_le (d := d) hs
    obtain ⟨hr, hl', hu'⟩ := ih hs'
    rw [List.foldl_cons, List.length_cons]
    refine ⟨hr, ?_, ?_⟩
    · push_cast
      omega
    · push_cast
      omega

theorem Adds.foldl_reads (h : Adds add places) (ha : a.Reads m k) (hd : ∀ d ∈ digits, d < 16) :
    ∃ k', (digits.foldl add a).Reads (digits.foldl (fun n d ↦ 16 * n + d) m) k' ∧
      (-2 ^ 59 ≤ a.scale - 4 * digits.length → a.scale + 4 * digits.length ≤ 2 ^ 59 →
        (digits.foldl add a).scale = a.scale + 4 * ((k' : ℤ) - k - places * digits.length)) := by
  induction digits generalizing a m k with
  | nil => exact ⟨k, ha, fun _ _ ↦ by simp⟩
  | cons d digits ih =>
    obtain ⟨hd0, hd⟩ := List.forall_mem_cons.1 hd
    obtain ⟨k₁, ha₁, hs₁⟩ := h.reads ha hd0
    obtain ⟨k₂, ha₂, hs₂⟩ := ih ha₁ hd
    refine ⟨k₂, ha₂, fun hl hu ↦ ?_⟩
    rw [List.length_cons] at hl hu ⊢
    push_cast at hl hu ⊢
    have hm : a.Moderate := ⟨by omega, by omega⟩
    have hs : saturate a.scale = a.scale := saturate_of_le (by omega) (by omega)
    obtain ⟨-, hl₁, hu₁⟩ := h.scale_le (d := d) hs
    have he := hs₂ (by omega) (by omega)
    rw [hs₁ hm] at he
    rw [List.foldl_cons, he]
    ring

theorem Reads.holds (h : a.Reads m k) {e : ℤ} (hs : a.scale = e + 4 * k) :
    a.Holds (m * 2 ^ e) ((m % 16 ^ k : ℕ) / 16 ^ k) := by
  have hp : (0 : ℚ) < 16 ^ k := by positivity
  have hm : (m : ℚ) = (m / 16 ^ k : ℕ) * 16 ^ k + (m % 16 ^ k : ℕ) := by
    exact_mod_cast (Nat.div_add_mod' m (16 ^ k)).symm
  have hscale : (2 : ℚ) ^ a.scale = 2 ^ e * 16 ^ k := by
    have h16 : (16 : ℚ) ^ k = 2 ^ (4 * k : ℤ) := by
      rw [show (16 : ℚ) = 2 ^ (4 : ℤ) by norm_num, ← zpow_natCast, ← zpow_mul]
    rw [hs, zpow_add₀ (by norm_num), h16]
  have hlt : m % 16 ^ k < 16 ^ k := Nat.mod_lt _ (by positivity)
  exact {
    eq := by
      rw [hscale, h.bits_eq, hm]
      have hr : ((m % 16 ^ k : ℕ) : ℚ) / 16 ^ k * 16 ^ k = (m % 16 ^ k : ℕ) :=
        div_mul_cancel₀ _ hp.ne'
      linear_combination (-(2 : ℚ) ^ e) * hr
    tail := {
      nonneg := div_nonneg (Nat.cast_nonneg _) hp.le
      lt := by
        rw [div_lt_iff₀ hp, Nat.cast_one, one_mul]
        exact_mod_cast hlt
      sticky_iff := by
        rw [h.sticky_iff, lt_div_iff₀ hp, zero_mul, Nat.cast_pos, Nat.pos_iff_ne_zero]
      dvd := one_dvd _ }
    filled := fun hsticky ↦ h.filled fun hk ↦ by
      rw [h.sticky_iff, hk, Nat.pow_zero, Nat.mod_one] at hsticky
      exact hsticky rfl
    bits_lt := h.bits_lt }

theorem round_eq_infinite (hb : a.bits ≠ 0) (hs : saturate a.scale = a.scale)
    (hl : 2 ^ 31 ≤ a.scale) : a.round = infinite := by
  have hz : 63 - a.bits.log2 = a.zeros := rfl
  have hz' : a.zeros ≤ 63 := by
    rw [zeros]
    omega
  have hu := (saturate_bounds a.scale).2
  have he : 1023 < saturate (saturate (a.scale - a.zeros) + 63) := by
    rw [hs] at hu
    rw [saturate_of_le (n := a.scale - a.zeros) (by omega) (by omega)]
    simp only [saturate_eq]
    omega
  simp only [round, hb, ↓reduceIte, hz, he]

theorem round_eq_zero (hs : saturate a.scale = a.scale) (hu : a.scale ≤ -2 ^ 31) :
    a.round = 0 := by
  by_cases hb : a.bits = 0
  · simp only [round, hb, ↓reduceIte]
  · have hz : 63 - a.bits.log2 = a.zeros := rfl
    have hz' : a.zeros ≤ 63 := by
      rw [zeros]
      omega
    have hl := (saturate_bounds a.scale).1
    have he : saturate (saturate (a.scale - a.zeros) + 63) < -1075 := by
      rw [hs] at hl
      simp only [saturate_eq]
      omega
    have hn : ¬ -1022 ≤ saturate (saturate (a.scale - a.zeros) + 63) := by omega
    simp only [round, hb, ↓reduceIte, hz, hn]
    rw [if_neg (by omega), if_pos (by omega)]

end Leading

/-- What an exponent of any size is read as: itself, or a number out of all range as well. -/
structure Clamped (n e : ℤ) : Prop where
  fits : saturate n = n
  eq : -(2 ^ 32 - 1) < e → e < 2 ^ 32 - 1 → n = e
  high : 2 ^ 32 - 1 ≤ e → 2 ^ 32 - 1 ≤ n
  low : e ≤ -(2 ^ 32 - 1) → n ≤ -(2 ^ 32 - 1)

theorem hexValue_lt {digits : List ℕ} (h : ∀ d ∈ digits, d < 16) :
    hexValue digits < 16 ^ digits.length := by
  have hfold : ∀ m, digits.foldl (fun n d ↦ 16 * n + d) m < (m + 1) * 16 ^ digits.length := by
    induction digits with
    | nil => simp
    | cons d digits ih =>
      obtain ⟨hd, h⟩ := List.forall_mem_cons.1 h
      intro m
      have hlt : 16 * m + d + 1 ≤ (m + 1) * 16 := by omega
      calc digits.foldl (fun n d ↦ 16 * n + d) (16 * m + d)
          < (16 * m + d + 1) * 16 ^ digits.length := ih h _
        _ ≤ (m + 1) * 16 * 16 ^ digits.length := Nat.mul_le_mul_right _ hlt
        _ = (m + 1) * 16 ^ (d :: digits).length := by
          rw [List.length_cons, Nat.pow_succ', Nat.mul_assoc]
  have h0 := hfold 0
  rwa [Nat.zero_add, Nat.one_mul] at h0

theorem overflow_le_two_pow {m : ℕ} {e : ℤ} (hm : m ≠ 0) (he : 1024 ≤ e) :
    overflow ≤ m * 2 ^ e := by
  have hm' : (1 : ℚ) ≤ m := by exact_mod_cast Nat.one_le_iff_ne_zero.2 hm
  calc overflow ≤ 2 ^ (1024 : ℤ) := sub_le_self _ (zpow_nonneg (by norm_num) _)
    _ ≤ 2 ^ e := zpow_le_zpow_right₀ (by norm_num) he
    _ ≤ m * 2 ^ e := le_mul_of_one_le_left (zpow_nonneg (by norm_num) _) hm'

theorem mul_two_pow_lt {m l : ℕ} {e : ℤ} (hm : m < 16 ^ l) (he : 4 * l + e ≤ -1075) :
    (m : ℚ) * 2 ^ e < 2 ^ (-1075 : ℤ) := by
  have hp : (0 : ℚ) < 2 ^ e := zpow_pos (by norm_num) e
  have hm' : (m : ℚ) < 16 ^ l := by exact_mod_cast hm
  have h16 : (16 : ℚ) ^ l = 2 ^ (4 * l : ℤ) := by
    rw [show (16 : ℚ) = 2 ^ (4 : ℤ) by norm_num, ← zpow_natCast, ← zpow_mul]
  calc (m : ℚ) * 2 ^ e < 16 ^ l * 2 ^ e := mul_lt_mul_of_pos_right hm' hp
    _ = 2 ^ (4 * l + e : ℤ) := by rw [h16, zpow_add₀ (by norm_num)]
    _ ≤ 2 ^ (-1075 : ℤ) := zpow_le_zpow_right₀ (by norm_num) he

open Leading in
/-- Digits on both sides of the point, and an exponent, make a correctly rounded number. -/
theorem digits_roundsTo {whole places : List ℕ} (hw : ∀ d ∈ whole, d < 16)
    (hp : ∀ d ∈ places, d < 16) (hlength : whole.length + places.length < 2 ^ 28) {n e : ℤ}
    (hn : Clamped n e) (negative : Bool) :
    RoundsTo negative (signed negative * (hexValue (whole ++ places) * 2 ^ (e - 4 * places.length)))
      (ofMagnitude negative
        (places.foldl addPlace (whole.foldl addWhole { scale := n })).round) := by
  obtain ⟨k₁, hr₁, hs₁⟩ := adds_addWhole.foldl_reads (Reads.start n) hw
  obtain ⟨k₂, hr₂, hs₂⟩ := adds_addPlace.foldl_reads hr₁ hp
  obtain ⟨hf₁, hl₁, hu₁⟩ := adds_addWhole.foldl_scale_le (a := { scale := n }) hn.fits whole
  obtain ⟨hf₂, hl₂, hu₂⟩ := adds_addPlace.foldl_scale_le hf₁ places
  have hm : places.foldl (fun n d ↦ 16 * n + d) (whole.foldl (fun n d ↦ 16 * n + d) 0) =
      hexValue (whole ++ places) := by
    rw [hexValue, List.foldl_append]
  have hlt : hexValue (whole ++ places) < 16 ^ (whole.length + places.length) := by
    rw [← List.length_append]
    exact hexValue_lt fun d hd ↦ (List.mem_append.1 hd).elim (hw d) (hp d)
  rw [hm] at hr₂
  simp only at hs₁ hl₁ hu₁
  generalize places.foldl addPlace (whole.foldl addWhole { scale := n }) = a at *
  generalize whole.foldl addWhole { scale := n } = b at *
  generalize hexValue (whole ++ places) = m at *
  have hv : (0 : ℚ) ≤ m * 2 ^ (e - 4 * places.length : ℤ) :=
    mul_nonneg (Nat.cast_nonneg m) (zpow_nonneg (by norm_num) _)
  rcases le_or_gt (2 ^ 32 - 1) e with he | he
  · have hhigh := hn.high he
    by_cases hb : a.bits = 0
    · have h0 : a.round = min 0 infinite := by
        simp only [Leading.round, hb, ↓reduceIte, Nat.zero_min]
      rw [hr₂.eq_zero_iff.1 hb, h0, Nat.cast_zero, zero_mul]
      exact (rounded_zero le_rfl (zpow_pos (by norm_num) _)).roundsTo le_rfl negative
    · rw [round_eq_infinite hb hf₂ (by omega)]
      exact roundsTo_of_overflow
        (overflow_le_two_pow (fun h0 ↦ hb (hr₂.eq_zero_iff.2 h0)) (by omega)) negative
  rcases le_or_gt e (-(2 ^ 32 - 1)) with he' | he'
  · have hlow := hn.low he'
    have h0 : a.round = min 0 infinite := by
      rw [round_eq_zero hf₂ (by omega), Nat.zero_min]
    rw [h0]
    exact (rounded_zero hv (mul_two_pow_lt hlt (by push_cast; omega))).roundsTo hv negative
  · obtain rfl := hn.eq he' he
    have hscale : a.scale = n - 4 * places.length + 4 * k₂ := by
      rw [hs₂ (by omega) (by omega), hs₁ (by omega) (by omega)]
      push_cast
      ring
    obtain ⟨r, hr, ha⟩ := (hr₂.holds hscale).rounded ⟨by omega, by omega⟩
    rw [ha]
    exact hr.roundsTo hv negative

end ThreeAddress.Binary64
