import Mathlib.Data.Int.ModEq
import Mathlib.Data.Rat.Floor
import ThreeAddress.Proofs.OperandTypes

namespace ThreeAddress

/-- `z` is the only 64-bit integer that is congruent to `n`. -/
def Wraps (n : ℤ) (z : Int64) : Prop := ∀ w : Int64, w.toInt ≡ n [ZMOD 2 ^ 64] ↔ w = z

/-- `r` is zero or has the sign of `y`, and it is the smaller one in magnitude. -/
def IsRemainder (r y : ℤ) : Prop := (r = 0 ∨ r.sign = y.sign) ∧ |r| < |y|

/-- The quotient is `2 ^ 63`, the only one that does not fit. -/
def Overflows (x y : Int64) : Prop := x = Int64.minValue ∧ y = -1

instance (x y : Int64) : Decidable (Overflows x y) := inferInstanceAs (Decidable (_ ∧ _))

namespace Value

variable {x y z : Int64} {n q r a b : ℤ}

theorem toInt_inj_of_modEq (h : x.toInt ≡ y.toInt [ZMOD 2 ^ 64]) : x = y := by
  have hx := x.le_toInt
  have hx' := x.toInt_lt
  have hy := y.le_toInt
  have hy' := y.toInt_lt
  rw [Int.ModEq] at h
  exact Int64.toInt_inj.1 (by omega)

theorem wraps_of_modEq (h : z.toInt ≡ n [ZMOD 2 ^ 64]) : Wraps n z := by
  intro w
  constructor
  · intro hw
    exact toInt_inj_of_modEq (hw.trans h.symm)
  · rintro rfl
    exact h

theorem wraps_of_bmod (h : z.toInt = n.bmod (2 ^ 64)) : Wraps n z := by
  apply wraps_of_modEq
  rw [h]
  exact Int.bmod_emod

theorem isRemainder_iff : IsRemainder r b ↔ 0 ≤ r ∧ r < b ∨ b < r ∧ r ≤ 0 := by
  rw [IsRemainder, Int.abs_eq_natAbs, Int.abs_eq_natAbs]
  rcases lt_trichotomy b 0 with hb | rfl | hb
  · rw [Int.sign_eq_neg_one_of_neg hb, Int.sign_eq_neg_one_iff_neg]
    omega
  · omega
  · rw [Int.sign_eq_one_of_pos hb, Int.sign_eq_one_iff_pos]
    omega

/-- The floor is the quotient that leaves a remainder. -/
theorem floor_eq (h : IsRemainder (a - q * b) b) : ⌊(a / b : ℚ)⌋ = q := by
  rw [Int.floor_eq_iff]
  rcases isRemainder_iff.1 h with ⟨hl, hu⟩ | ⟨hl, hu⟩
  · have hb : (0 : ℚ) < b := by exact_mod_cast hl.trans_lt hu
    rw [le_div_iff₀ hb, div_lt_iff₀ hb]
    constructor
    · exact_mod_cast (by omega : q * b ≤ a)
    · exact_mod_cast (by linarith : a < (q + 1) * b)
  · have hb : (b : ℚ) < 0 := by exact_mod_cast hl.trans_le hu
    rw [le_div_iff_of_neg hb, div_lt_iff_of_neg hb]
    constructor
    · exact_mod_cast (by omega : a ≤ q * b)
    · exact_mod_cast (by linarith : (q + 1) * b < a)

/-- Truncation leaves what has the sign of the dividend. -/
theorem tmod_nonpos (h : a ≤ 0) (b : ℤ) : a.tmod b ≤ 0 := by
  have hn := Int.tmod_nonneg b (Int.neg_nonneg.2 h)
  rw [Int.neg_tmod] at hn
  omega

theorem natAbs_tmod_lt (a : ℤ) (hb : b ≠ 0) : (a.tmod b).natAbs < b.natAbs := by
  rw [Int.natAbs_tmod]
  exact Nat.mod_lt _ (Int.natAbs_pos.2 hb)

theorem toInt_div (h : ¬ Overflows x y) : (x / y).toInt = x.toInt.tdiv y.toInt := by
  by_cases hx : x = Int64.minValue
  · exact Int64.toInt_div_of_ne_right x y fun hy ↦ h ⟨hx, hy⟩
  · exact Int64.toInt_div_of_ne_left x y hx

/-- A quotient that is corrected is not the least integer: that has no remainder. -/
theorem toInt_div_sub_one (hy : y.toInt ≠ 0) (h : ¬ Overflows x y)
    (hr : x.toInt.tmod y.toInt ≠ 0) (hs : ¬ (x.toInt < 0 ↔ y.toInt < 0)) :
    (x / y - 1).toInt = x.toInt.tdiv y.toInt - 1 := by
  have hd := toInt_div h
  have hl := (x / y).le_toInt
  have hu := (x / y).toInt_lt
  have hx := x.le_toInt
  have hx' := x.toInt_lt
  have hsum := Int.mul_tdiv_add_tmod x.toInt y.toInt
  have hpos := Int.tmod_nonneg (a := x.toInt) y.toInt
  have hneg := tmod_nonpos (a := x.toInt) (b := y.toInt)
  rw [hd] at hl hu
  have hne : x.toInt.tdiv y.toInt ≠ -2 ^ 63 := by
    intro he
    rw [he] at hsum
    omega
  rw [Int64.toInt_sub, hd, Int64.toInt_one, Int.bmod_eq_of_le] <;> omega

theorem floorDiv_isRemainder (hy : y ≠ 0) (h : ¬ Overflows x y) :
    IsRemainder (x.toInt - (floorDiv x y).toInt * y.toInt) y.toInt := by
  have hy' : y.toInt ≠ 0 := fun h0 ↦ hy (Int64.toInt_inj.1 h0)
  have hsum := Int.mul_tdiv_add_tmod x.toInt y.toInt
  have hlt := natAbs_tmod_lt x.toInt hy'
  have hpos := Int.tmod_nonneg (a := x.toInt) y.toInt
  have hneg := tmod_nonpos (a := x.toInt) (b := y.toInt)
  have hmod : x % y = 0 ↔ x.toInt.tmod y.toInt = 0 := by
    rw [← Int64.toInt_inj, Int64.toInt_mod, Int64.toInt_zero]
  rw [isRemainder_iff, floorDiv]
  simp only [ne_eq, hmod, Int64.lt_iff_toInt_lt, Int64.toInt_zero]
  split
  · next hc =>
    rw [toInt_div_sub_one hy' h hc.1 hc.2]
    have hr : x.toInt - (x.toInt.tdiv y.toInt - 1) * y.toInt = x.toInt.tmod y.toInt + y.toInt := by
      linarith
    rw [hr]
    omega
  · next hc =>
    rw [toInt_div h]
    have hr : x.toInt - x.toInt.tdiv y.toInt * y.toInt = x.toInt.tmod y.toInt := by
      linarith
    rw [hr]
    omega

example : floorDiv (-7) 2 = -4 ∧ floorDiv 7 (-2) = -4 ∧ floorDiv (-7) (-2) = 3 := by decide

theorem floorDiv_overflow (h : Overflows x y) : floorDiv x y = Int64.minValue := by
  obtain ⟨rfl, rfl⟩ := h
  decide

theorem wraps_floorDiv (hy : y ≠ 0) : Wraps ⌊(x.toInt / y.toInt : ℚ)⌋ (floorDiv x y) := by
  by_cases h : Overflows x y
  · rw [floorDiv_overflow h]
    obtain ⟨rfl, rfl⟩ := h
    apply wraps_of_modEq
    rw [Int64.toInt_minValue, show (-1 : Int64).toInt = -1 by decide]
    norm_num [Int.ModEq]
  · rw [floor_eq (floorDiv_isRemainder hy h)]
    exact wraps_of_modEq rfl

end Value

namespace BinaryOp

open Value

/-- The result on two integers is the one that is congruent to `n`. -/
def Computes (op : BinaryOp) (x y : Int64) (n : ℤ) : Prop :=
  ∃ z, op.apply (.int x) (.int y) = .ok (.int z) ∧ Wraps n z

/-- Two values that arithmetic is made for. -/
def Numeric (a b : Value) : Prop := a.type = b.type ∧ (a.type = .int ∨ a.type = .float)

def arithmetic : List BinaryOp := [add, sub, mul, div, idiv]

variable {op : BinaryOp} {a b : Value}

theorem accepts_eq_false (ho : op ∈ arithmetic) (h : ¬ Numeric a b) :
    op.accepts a.type b.type = false := by
  rw [← Bool.not_eq_true]
  intro ha
  apply h
  simp only [arithmetic, List.mem_cons, List.not_mem_nil, or_false] at ho
  rcases ho with rfl | rfl | rfl | rfl | rfl
  all_goals
    simp only [accepts, Bool.and_eq_true, Bool.or_eq_true, beq_iff_eq] at ha
  · exact ha
  · exact ha
  · exact ha
  · exact ⟨ha.1.trans ha.2.symm, .inr ha.1⟩
  · exact ha

theorem idiv_eq (x y : Int64) : idiv.apply (.int x) (.int y) =
    if y = 0 then .error .divisionByZero else .ok (.int (floorDiv x y)) := rfl

/-- Arithmetic of integers is exact up to multiples of `2 ^ 64`, and division rounds down. Only the
quotient `2 ^ 63` does not fit. Nothing else than two integers or two floats is computed with. -/
theorem integer_arithmetic (x y : Int64) :
    Computes add x y (x.toInt + y.toInt) ∧ Computes sub x y (x.toInt - y.toInt) ∧
    Computes mul x y (x.toInt * y.toInt) ∧
    (idiv.apply (.int x) (.int y) = .error .divisionByZero ↔ y = 0) ∧
    (y ≠ 0 → Computes idiv x y ⌊(x.toInt / y.toInt : ℚ)⌋ ∧
      ∀ q, idiv.apply (.int x) (.int y) = .ok (.int q) →
        if Overflows x y then q = Int64.minValue
        else q.toInt = ⌊(x.toInt / y.toInt : ℚ)⌋ ∧
          IsRemainder (x.toInt - q.toInt * y.toInt) y.toInt) ∧
    div.apply (.int x) (.int y) = .error .typeMismatch ∧
    ∀ op ∈ arithmetic, ∀ a b, ¬ Numeric a b → op.apply a b = .error .typeMismatch := by
  refine ⟨⟨_, rfl, wraps_of_bmod (Int64.toInt_add x y)⟩,
    ⟨_, rfl, wraps_of_bmod (Int64.toInt_sub x y)⟩,
    ⟨_, rfl, wraps_of_bmod (Int64.toInt_mul x y)⟩, ?_, ?_, rfl, ?_⟩
  · rw [idiv_eq]
    constructor
    · intro h
      by_contra hy
      rw [if_neg hy] at h
      cases h
    · intro hy
      rw [if_pos hy]
  · intro hy
    rw [idiv_eq, if_neg hy]
    refine ⟨⟨_, by rw [idiv_eq, if_neg hy], wraps_floorDiv hy⟩, ?_⟩
    rintro q hq
    cases hq
    split
    · next h => exact floorDiv_overflow h
    · next h =>
      have hr := floorDiv_isRemainder hy h
      exact ⟨(floor_eq hr).symm, hr⟩
  · intro op ho a b h
    exact (apply_typed op a b).mismatch (accepts_eq_false ho h)

theorem integer_arithmetic_negative : (2 : Int64) ≠ 0 ∧ ¬ Overflows (-7) 2 ∧
    idiv.apply (.int (-7)) (.int 2) = .ok (.int (-4)) ∧ (-4 : Int64).toInt = ⌊(-7 / 2 : ℚ)⌋ ∧
    IsRemainder 1 2 := by
  have hy : (2 : Int64) ≠ 0 := by decide
  have ho : ¬ Overflows (-7) 2 := by decide
  have ha : idiv.apply (.int (-7)) (.int 2) = .ok (.int (-4)) := rfl
  have hq := ((integer_arithmetic (-7) 2).2.2.2.2.1 hy).2 (-4) ha
  rw [if_neg ho] at hq
  exact ⟨hy, ho, ha, hq⟩

end BinaryOp

end ThreeAddress
