import Mathlib.Data.List.TakeWhile
import ThreeAddress.Text.Basic

namespace ThreeAddress.Text

variable {c : Char} {s t before core after : List Char}

theorem toNat_ofNat {n : Nat} (h : n.isValidChar) : (Char.ofNat n).toNat = n := by
  rw [Char.ofNat, dif_pos h]
  rfl

theorem isDigit_iff : c.isDigit = true ↔ 48 ≤ c.toNat ∧ c.toNat ≤ 57 := Char.isDigit_iff_toNat

theorem isBlank_of_isDigit (h : c.isDigit = true) : isBlank c = false := by
  rw [isDigit_iff] at h
  simp only [isBlank, Bool.or_eq_false_iff, Bool.and_eq_false_iff, decide_eq_false_iff_not,
    beq_eq_false_iff_ne]
  omega

theorem dropWhile_append_of_head {p : Char → Bool} (hb : ∀ c ∈ before, p c = true)
    (hc : ∀ c, core.head? = some c → p c = false) : (before ++ core).dropWhile p = core := by
  rw [List.dropWhile_append_of_pos hb]
  cases core with
  | nil => rfl
  | cons c core => rw [List.dropWhile_cons, hc c rfl, if_neg Bool.false_ne_true]

theorem dropEnd_append_of_last {p : Char → Bool} (ha : ∀ c ∈ after, p c = true)
    (hc : ∀ c, core.getLast? = some c → p c = false) : dropEnd p (core ++ after) = core := by
  rw [dropEnd, List.reverse_append, dropWhile_append_of_head, List.reverse_reverse]
  · exact fun c h ↦ ha c (List.mem_reverse.1 h)
  · intro c h
    rw [List.head?_reverse] at h
    exact hc c h

/-- Blanks around a text that has none at its ends are taken away. -/
theorem trim_append (hb : ∀ c ∈ before, isBlank c = true) (ha : ∀ c ∈ after, isBlank c = true)
    (hc : ∀ c ∈ core, isBlank c = false) (hne : core ≠ []) :
    trim (before ++ core ++ after) = core := by
  rw [trim, List.append_assoc, dropWhile_append_of_head hb, dropEnd_append_of_last ha]
  · exact fun c h ↦ hc c (List.mem_of_getLast? h)
  · intro c h
    cases core with
    | nil => exact absurd rfl hne
    | cons d core =>
      cases h
      exact hc _ List.mem_cons_self

theorem exists_dropWhile (p : Char → Bool) (s : List Char) :
    ∃ before, s = before ++ s.dropWhile p ∧ ∀ c ∈ before, p c = true :=
  ⟨s.takeWhile p, List.takeWhile_append_dropWhile.symm, fun _ h ↦ List.mem_takeWhile_imp h⟩

theorem exists_dropEnd (p : Char → Bool) (s : List Char) :
    ∃ after, s = dropEnd p s ++ after ∧ ∀ c ∈ after, p c = true := by
  obtain ⟨before, hs, hb⟩ := exists_dropWhile p s.reverse
  refine ⟨before.reverse, ?_, fun c h ↦ hb c (List.mem_reverse.1 h)⟩
  rw [dropEnd, ← List.reverse_append, ← hs, List.reverse_reverse]

theorem exists_ends (p : Char → Bool) (s : List Char) :
    ∃ before after, s = before ++ dropEnd p (s.dropWhile p) ++ after ∧
      (∀ c ∈ before, p c = true) ∧ ∀ c ∈ after, p c = true := by
  obtain ⟨before, hs, hb⟩ := exists_dropWhile p s
  obtain ⟨after, hs', ha⟩ := exists_dropEnd p (s.dropWhile p)
  refine ⟨before, after, ?_, hb, ha⟩
  rw [List.append_assoc, ← hs', ← hs]

theorem exists_trim (s : List Char) :
    ∃ before after, s = before ++ trim s ++ after ∧ (∀ c ∈ before, isBlank c = true) ∧
      ∀ c ∈ after, isBlank c = true := exists_ends isBlank s

theorem cut?_append (h : c ∉ s) (t : List Char) : cut? c (s ++ c :: t) = some (s, t) := by
  induction s with
  | nil => rw [List.nil_append, cut?, if_pos rfl]
  | cons d s ih =>
    rw [List.mem_cons, not_or] at h
    obtain ⟨hd, hs⟩ := h
    rw [List.cons_append, cut?, if_neg (Ne.symm hd), ih hs]
    rfl

theorem cut?_eq_none : cut? c s = none ↔ c ∉ s := by
  induction s with
  | nil => simp [cut?]
  | cons d s ih =>
    rw [cut?]
    by_cases hd : d = c
    · simp [hd]
    · rw [if_neg hd, Option.map_eq_none_iff, ih, List.mem_cons, not_or]
      exact ⟨fun h ↦ ⟨Ne.symm hd, h⟩, And.right⟩

/-- How a text shows its sign. -/
def IsSign (negative : Bool) (s : List Char) : Prop :=
  negative = true ∧ s = ['-'] ∨ negative = false ∧ (s = [] ∨ s = ['+'])

theorem sign_append {negative : Bool} (h : IsSign negative s)
    (ht : ∀ c, t.head? = some c → c ≠ '-' ∧ c ≠ '+') : sign (s ++ t) = (negative, t) := by
  rcases h with ⟨rfl, rfl⟩ | ⟨rfl, rfl | rfl⟩
  · rfl
  · rw [List.nil_append, sign]
    · rintro u rfl
      exact (ht '-' rfl).1 rfl
    · rintro u rfl
      exact (ht '+' rfl).2 rfl
  · rfl

/-- The case of the letters does not matter to the sign before them. -/
theorem sign_append_lower {negative : Bool} (h : IsSign negative s)
    (ht : ∀ c, (t.map Char.toLower).head? = some c → c ≠ '-' ∧ c ≠ '+') :
    sign (s ++ t) = (negative, t) := by
  refine sign_append h fun c hc ↦ ?_
  obtain ⟨hminus, hplus⟩ := ht c.toLower (by rw [List.head?_map, hc, Option.map_some])
  constructor
  · rintro rfl
    exact hminus rfl
  · rintro rfl
    exact hplus rfl

theorem exists_sign (s : List Char) : ∃ t, s = t ++ (sign s).2 ∧ IsSign (sign s).1 t := by
  rw [sign.eq_def]
  split
  · exact ⟨['-'], rfl, .inl ⟨rfl, rfl⟩⟩
  · exact ⟨['+'], rfl, .inr ⟨rfl, .inr rfl⟩⟩
  · exact ⟨[], rfl, .inr ⟨rfl, .inl rfl⟩⟩

def signs : List (List Char) := [[], ['+'], ['-']]

theorem mem_signs : s ∈ signs ↔ ∃ negative, IsSign negative s := by
  constructor
  · intro h
    simp only [signs, List.mem_cons, List.not_mem_nil, or_false] at h
    rcases h with rfl | rfl | rfl
    · exact ⟨false, .inr ⟨rfl, .inl rfl⟩⟩
    · exact ⟨false, .inr ⟨rfl, .inr rfl⟩⟩
    · exact ⟨true, .inl ⟨rfl, rfl⟩⟩
  · rintro ⟨negative, ⟨-, rfl⟩ | ⟨-, rfl | rfl⟩⟩
    all_goals decide

theorem toLower_eq_self (h : c.toNat < 65 ∨ 90 < c.toNat) : c.toLower = c := by
  have hn : ¬ (c.val ≥ 'A'.val ∧ c.val ≤ 'Z'.val) := by
    rintro ⟨hl, hu⟩
    have hl' : 65 ≤ c.toNat := hl
    have hu' : c.toNat ≤ 90 := hu
    omega
  exact dif_neg hn

theorem toLower_of_isBlank (h : isBlank c = true) : c.toLower = c := by
  simp only [isBlank, Bool.or_eq_true, Bool.and_eq_true, decide_eq_true_eq, beq_iff_eq] at h
  exact toLower_eq_self (by omega)

end ThreeAddress.Text
