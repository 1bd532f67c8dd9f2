import Mathlib.Data.List.Lex
import ThreeAddress.Proofs.Text.Lines

namespace ThreeAddress.Text

variable {α : Type} {key : α → ℕ} {x y : α} {s t : List α}

/-- Two sequences part somewhere, and there the entry of the first one is smaller. -/
def Parts (key : α → ℕ) (s t : List α) : Prop :=
  ∃ p x y, p ++ [x] <+: s ∧ p ++ [y] <+: t ∧ key x < key y

/-- The first difference decides, and a proper prefix comes first. -/
def Precedes (key : α → ℕ) (s t : List α) : Prop := s <+: t ∧ s ≠ t ∨ Parts key s t

namespace Parts

theorem head (h : key x < key y) (s t : List α) : Parts key (x :: s) (y :: t) :=
  ⟨[], x, y, ⟨s, rfl⟩, ⟨t, rfl⟩, h⟩

theorem prepend (h : Parts key s t) (p : List α) : Parts key (p ++ s) (p ++ t) := by
  obtain ⟨q, x, y, hs, ht, hlt⟩ := h
  refine ⟨p ++ q, x, y, ?_, ?_, hlt⟩
  · rw [List.append_assoc]
    exact (List.prefix_append_right_inj p).2 hs
  · rw [List.append_assoc]
    exact (List.prefix_append_right_inj p).2 ht

theorem append (h : Parts key s t) (u v : List α) : Parts key (s ++ u) (t ++ v) := by
  obtain ⟨p, x, y, hs, ht, hlt⟩ := h
  exact ⟨p, x, y, hs.trans (List.prefix_append s u), ht.trans (List.prefix_append t v), hlt⟩

end Parts

theorem precedes_iff_lex {r : α → α → Prop} (hr : ∀ x y, r x y ↔ key x < key y) :
    Precedes key s t ↔ List.Lex r s t := by
  constructor
  · rintro (⟨⟨u, rfl⟩, hne⟩ | ⟨p, x, y, ⟨u, rfl⟩, ⟨v, rfl⟩, hlt⟩)
    · cases u with
      | nil => exact absurd (List.append_nil s).symm hne
      | cons y u =>
        have h := List.Lex.append_left r (.nil (a := y) (l := u)) s
        rwa [List.append_nil] at h
    · rw [List.append_assoc, List.append_assoc]
      exact List.Lex.append_left r (.rel ((hr x y).2 hlt)) p
  · intro h
    induction h with
    | nil => exact .inl ⟨List.nil_prefix, (List.cons_ne_nil _ _).symm⟩
    | @cons x s t _ ih =>
      rcases ih with ⟨hp, hne⟩ | hparts
      · exact .inl ⟨(List.prefix_cons_inj x).2 hp, fun he ↦ hne (List.cons.inj he).2⟩
      · exact .inr (hparts.prepend [x])
    | rel h => exact .inr (.head ((hr _ _).1 h) _ _)

theorem lt_iff_precedes {s t : String} : s < t ↔ Precedes Char.toNat s.toList t.toList :=
  (precedes_iff_lex fun _ _ ↦ Iff.rfl).symm

namespace Precedes

theorem asymm (h : Precedes key s t) : ¬ Precedes key t s := by
  have hkey : Std.Asymm fun x y ↦ key x < key y := ⟨fun _ _ ↦ Nat.lt_asymm⟩
  rw [precedes_iff_lex fun _ _ ↦ Iff.rfl] at h ⊢
  exact Std.Asymm.asymm _ _ h

theorem total (hkey : Function.Injective key) (s t : List α) :
    Precedes key s t ∨ s = t ∨ Precedes key t s := by
  have htri : Std.Trichotomous fun x y ↦ key x < key y :=
    ⟨fun x y hx hy ↦ hkey (Nat.le_antisymm (Nat.not_lt.1 hy) (Nat.not_lt.1 hx))⟩
  rw [precedes_iff_lex fun _ _ ↦ Iff.rfl, precedes_iff_lex fun _ _ ↦ Iff.rfl]
  by_contra h
  obtain ⟨hst, hne, hts⟩ := not_or.1 h |>.imp_right not_or.1
  exact hne (Std.Trichotomous.trichotomous _ _ hst hts)

end Precedes

section Bytes

/-- Below the bound, a larger number has larger bytes. -/
def Increasing (f : ℕ → List UInt8) (bound : ℕ) : Prop :=
  ∀ m n, m < n → n < bound → Parts UInt8.toNat (f m) (f n)

def leading (k base n : ℕ) : List UInt8 := [UInt8.ofNat (n % k + base)]

/-- The last six bits of a number have a byte of their own. -/
def continued (f : ℕ → List UInt8) (n : ℕ) : List UInt8 :=
  f (n / 64) ++ [UInt8.ofNat (n % 64 + 128)]

/-- The bytes of a number, of which there are more for the larger ones. -/
inductive Encodes (n : ℕ) : List UInt8 → Prop
  | one : n < 128 → Encodes n (leading 128 0 n)
  | two : 128 ≤ n → n < 2048 → Encodes n (continued (leading 32 192) n)
  | three : 2048 ≤ n → n < 65536 → Encodes n (continued (continued (leading 16 224)) n)
  | four : 65536 ≤ n → n < 2097152 →
      Encodes n (continued (continued (continued (leading 8 240))) n)

variable {m n k base bound : ℕ} {f : ℕ → List UInt8} {c d : Char} {a b : List UInt8}

theorem encodes_utf8EncodeChar (c : Char) : Encodes c.toNat (String.utf8EncodeChar c) := by
  have hv : c.val.toNat = c.toNat := rfl
  have hvalid : c.toNat.isValidChar := c.valid
  rw [Nat.isValidChar] at hvalid
  rw [String.utf8EncodeChar]
  simp only [hv]
  split_ifs with h1 h2 h3
  · have he := Encodes.one (n := c.toNat) (by omega)
    rwa [leading, Nat.mod_eq_of_lt (by omega : c.toNat < 128)] at he
  · exact .two (by omega) (by omega)
  · have he := Encodes.three (n := c.toNat) (by omega) (by omega)
    rwa [continued, continued, Nat.div_div_eq_div_mul] at he
  · have he := Encodes.four (n := c.toNat) (by omega) (by omega)
    simp only [continued, Nat.div_div_eq_div_mul] at he
    exact he

theorem parts_ofNat (h : m < n) (hn : n < 256) (s t : List UInt8) :
    Parts UInt8.toNat (UInt8.ofNat m :: s) (UInt8.ofNat n :: t) := by
  apply Parts.head
  rw [UInt8.toNat_ofNat', UInt8.toNat_ofNat']
  omega

theorem increasing_leading (h : k + base ≤ 256) : Increasing (leading k base) k := by
  intro m n hlt hn
  have hm : m % k = m := Nat.mod_eq_of_lt (hlt.trans hn)
  have hn' : n % k = n := Nat.mod_eq_of_lt hn
  exact parts_ofNat (by omega) (by omega) [] []

theorem Increasing.continued (h : Increasing f bound) : Increasing (continued f) (bound * 64) := by
  intro m n hlt hn
  have hle : m / 64 ≤ n / 64 := Nat.div_le_div_right hlt.le
  rcases hle.lt_or_eq with hdiv | hdiv
  · exact (h _ _ hdiv (by omega)).append _ _
  · rw [Text.continued, Text.continued, hdiv]
    exact (parts_ofNat (by omega) (by omega) [] []).prepend _

/-- Where there are fewer bytes, the first of them is smaller. -/
theorem Encodes.parts (hm : Encodes m a) (hn : Encodes n b) (h : m < n) :
    Parts UInt8.toNat a b := by
  have one : Increasing (leading 128 0) 128 := increasing_leading (by omega)
  have two : Increasing (leading 32 192) 32 := increasing_leading (by omega)
  have three : Increasing (leading 16 224) 16 := increasing_leading (by omega)
  have four : Increasing (leading 8 240) 8 := increasing_leading (by omega)
  cases hm with
  | one hm =>
    cases hn with
    | one hn => exact one _ _ h hn
    | two | three | four => exact parts_ofNat (by omega) (by omega) _ _
  | two hl hm =>
    cases hn with
    | one hn => omega
    | two hl' hn => exact two.continued _ _ h hn
    | three | four => exact parts_ofNat (by omega) (by omega) _ _
  | three hl hm =>
    cases hn with
    | one hn | two hl' hn => omega
    | three hl' hn => exact three.continued.continued _ _ h hn
    | four => exact parts_ofNat (by omega) (by omega) _ _
  | four hl hm =>
    cases hn with
    | one hn | two hl' hn | three hl' hn => omega
    | four hl' hn => exact four.continued.continued.continued _ _ h hn

variable {s t : List Char}

theorem Precedes.flatMap_utf8EncodeChar (h : Precedes Char.toNat s t) :
    Precedes UInt8.toNat (s.flatMap String.utf8EncodeChar) (t.flatMap String.utf8EncodeChar) := by
  rcases h with ⟨⟨u, rfl⟩, hne⟩ | ⟨p, c, d, ⟨u, rfl⟩, ⟨v, rfl⟩, hlt⟩
  · left
    rw [List.flatMap_append]
    refine ⟨List.prefix_append _ _, fun he ↦ hne ?_⟩
    cases u with
    | nil => exact (List.append_nil s).symm
    | cons c u =>
      have hnil := List.self_eq_append_right.1 he
      rw [List.flatMap_cons] at hnil
      exact absurd (List.append_eq_nil_iff.1 hnil).1 String.utf8EncodeChar_ne_nil
  · right
    have hparts := (encodes_utf8EncodeChar c).parts (encodes_utf8EncodeChar d) hlt
    simp only [List.flatMap_append, List.flatMap_singleton]
    rw [List.append_assoc, List.append_assoc]
    exact (hparts.append _ _).prepend _

/-- The order by code points is the order of the bytes. -/
theorem precedes_utf8_iff {s t : String} :
    Precedes UInt8.toNat (utf8 s) (utf8 t) ↔ Precedes Char.toNat s.toList t.toList := by
  rw [utf8_eq, utf8_eq]
  constructor
  · intro h
    rcases Precedes.total (fun _ _ ↦ Char.toNat_inj.1) s.toList t.toList with hst | he | hts
    · exact hst
    · rw [he] at h
      exact absurd h h.asymm
    · exact absurd hts.flatMap_utf8EncodeChar h.asymm
  · exact Precedes.flatMap_utf8EncodeChar

end Bytes

end ThreeAddress.Text
