import ThreeAddress.Proofs.OperandTypes
import ThreeAddress.Proofs.ReadBack
import ThreeAddress.Proofs.Text.Escaped
import ThreeAddress.Proofs.Text.Numeral

namespace ThreeAddress

open Text

/-- The characters that end a word. -/
def Text.isBreak (c : Char) : Bool := c == ' ' || c == '\n'

/-- A text that is one word. -/
def Text.Unbroken (s : List Char) : Prop := ∀ c ∈ s, isBreak c = false

instance (s : List Char) : Decidable (Unbroken s) := List.decidableBAll _ s

namespace Text

variable {s t : List Char} {c : Char}

theorem Unbroken.append (hs : Unbroken s) (ht : Unbroken t) : Unbroken (s ++ t) := fun c hc ↦
  (List.mem_append.1 hc).elim (hs c) (ht c)

theorem Unbroken.not_mem (hs : Unbroken s) (hc : isBreak c = true) : c ∉ s := fun hm ↦ by
  rw [hs c hm] at hc
  cases hc

theorem isBreak_of_not_isBlank (h : isBlank c = false) : isBreak c = false := by
  rw [isBreak, Bool.or_eq_false_iff, beq_eq_false_iff_ne, beq_eq_false_iff_ne]
  constructor
  · rintro rfl
    cases h
  · rintro rfl
    cases h

theorem unbroken_toString (n : Nat) : Unbroken (toString n).toList := by
  rw [Nat.toString_eq_ofList_toDigits, String.toList_ofList]
  intro c hc
  exact isBreak_of_not_isBlank (isBlank_of_isDigit
    (Nat.isDigit_of_mem_toDigits (by decide) (by decide) hc))

theorem unbroken_encode (s : List Char) : Unbroken (Escaped.encode s) := by
  intro c hc
  rw [isBreak, Bool.or_eq_false_iff, beq_eq_false_iff_ne, beq_eq_false_iff_ne]
  constructor
  · rintro rfl
    exact Escaped.not_mem_encode (by decide) (by decide) hc
  · rintro rfl
    exact Escaped.not_mem_encode (by decide) (by decide) hc

end Text

namespace Value

variable {x y : Value}

/-- All floats that are no numbers stand for one. -/
def canonical : Value → Value
  | float x => float (if x.isNaN then .nan else x)
  | x => x

/-- What a description has behind the type of the value. -/
def spelled : Value → List Char
  | nil => "nil".toList
  | string s => Escaped.encode s.toList
  | x => x.display.toList

theorem spelled_int (n : Int64) : (int n).spelled = Numeral.write n.toInt := String.toList_ofList

theorem spelled_float (x : Binary64) : (float x).spelled = x.write := String.toList_ofList

theorem describe_canonical (x : Value) : x.canonical.describe = x.describe := by
  cases x with
  | float x =>
    cases hx : x.isNaN with
    | true =>
      have hn : Binary64.nan.isNaN = true := by decide
      simp only [canonical, hx, ↓reduceIte, describe, typeName, display, Binary64.write, hn]
    | false => simp only [canonical, hx, Bool.false_eq_true, ↓reduceIte]
  | _ => rfl

theorem toList_describe (hx : x ≠ undefined) :
    x.describe.toList = x.typeName.toList ++ '@' :: x.spelled := by
  cases x with
  | undefined => exact absurd rfl hx
  | nil => rfl
  | string s => simp [describe, typeName, spelled]
  | bool | int | float => simp [describe, spelled]

theorem at_not_mem_typeName (x : Value) : '@' ∉ x.typeName.toList := by
  cases x <;> simp [typeName]

theorem cut?_describe (x : Value) : cut? '@' x.describe.toList =
    if x = undefined then none else some (x.typeName.toList, x.spelled) := by
  by_cases hx : x = undefined
  · rw [if_pos hx, hx]
    decide
  · rw [if_neg hx, toList_describe hx, cut?_append x.at_not_mem_typeName]

theorem type_eq_of_typeName (h : x.typeName = y.typeName) : x.type = y.type := by
  cases x <;> cases y <;> first
    | rfl
    | simp [typeName] at h

theorem float_canonical {x y : Binary64} (h : x.write = y.write) :
    (float x).canonical = (float y).canonical := by
  have hn {z : Binary64} (hz : z.isNaN = true) : Binary64.read? z.write = some .nan := by
    rw [Binary64.write, hz, if_pos rfl]
    decide
  have hc {z w : Binary64} (hz : z.isNaN = true) (he : z.write = w.write) : w.isNaN = true := by
    cases hw : w.isNaN with
    | true => rfl
    | false =>
      have hr := Binary64.read?_write hw
      rw [← he, hn hz, Option.some_inj] at hr
      rw [← hr] at hw
      cases hw
  cases hx : x.isNaN with
  | true => simp only [canonical, hx, hc hx h, ↓reduceIte]
  | false =>
    have hy : y.isNaN = false := by
      cases hy : y.isNaN with
      | true => rw [hc hy h.symm] at hx; cases hx
      | false => rfl
    have hr := Binary64.read?_write hx
    rw [h, Binary64.read?_write hy, Option.some_inj] at hr
    rw [hr]

theorem canonical_eq (ht : x.type = y.type) (hs : x.spelled = y.spelled) :
    x.canonical = y.canonical := by
  cases x <;> cases y <;> simp only [type, reduceCtorEq] at ht
  case undefined | nil => rfl
  case bool.bool a b =>
    cases a <;> cases b <;> first
      | rfl
      | cases hs
  case int.int n k =>
    rw [spelled_int, spelled_int] at hs
    have hn := Numeral.int64?_write n
    rw [hs, Numeral.int64?_write, Option.some_inj] at hn
    rw [hn]
  case float.float a b =>
    rw [spelled_float, spelled_float] at hs
    exact float_canonical hs
  case string.string s t =>
    rw [String.toList_injective (Escaped.encode_injective hs)]

theorem describe_eq_iff : x.describe = y.describe ↔ x.canonical = y.canonical := by
  constructor
  · intro h
    have hc := congrArg (cut? '@' ·.toList) h
    simp only [cut?_describe] at hc
    by_cases hx : x = undefined <;> by_cases hy : y = undefined
    · rw [hx, hy]
    · rw [if_pos hx, if_neg hy] at hc
      cases hc
    · rw [if_neg hx, if_pos hy] at hc
      cases hc
    · rw [if_neg hx, if_neg hy, Option.some_inj, Prod.mk.injEq] at hc
      exact canonical_eq (type_eq_of_typeName (String.toList_injective hc.1)) hc.2
  · intro h
    rw [← describe_canonical x, ← describe_canonical y, h]

theorem unbroken_spelled (x : Value) : Unbroken x.spelled := by
  cases x with
  | undefined => exact fun c hc ↦ absurd hc List.not_mem_nil
  | nil => decide
  | bool b =>
    cases b with
    | true => decide
    | false => decide
  | int n =>
    rw [spelled_int]
    exact fun c hc ↦ isBreak_of_not_isBlank (Numeral.isBlank_of_mem_write hc)
  | float x =>
    rw [spelled_float]
    cases hx : x.isNaN with
    | true =>
      rw [Binary64.write, hx, if_pos rfl]
      decide
    | false => exact fun c hc ↦ isBreak_of_not_isBlank (Binary64.isBlank_of_mem_write hx hc)
  | string s => exact unbroken_encode s.toList

theorem unbroken_describe (x : Value) : Unbroken x.describe.toList := by
  by_cases hx : x = undefined
  · rw [hx]
    decide
  · have ht : Unbroken x.typeName.toList := by
      cases x <;> simp [typeName, Unbroken, isBreak]
    rw [toList_describe hx, ← List.singleton_append, ← List.append_assoc]
    exact (ht.append (by decide)).append x.unbroken_spelled

end Value

end ThreeAddress
