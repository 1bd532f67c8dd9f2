import ThreeAddress.Proofs.ReadBack
import ThreeAddress.Proofs.Text.Escaped
import ThreeAddress.Proofs.Text.Numeral

namespace ThreeAddress

open Text

/-- What precedes the text of an argument where the kind is shown. -/
def ArgumentType.mark : ArgumentType → String
  | var | label | type => ""
  | t => t.name ++ "@"

variable {text : String} {t : ArgumentType} {e : DecodeError} {a : Argument} {v : VarRef}

theorem literalOr_eq_ok {o : Option Value} :
    literalOr e o = .ok a ↔ ∃ x, o = some x ∧ a = .literal x := by
  cases o with
  | none => simp [literalOr]
  | some x => simp [literalOr, eq_comm]

theorem ite_eq_ok {c : Prop} [Decidable c] {b : Argument} :
    (if c then .ok b else .error e : Except DecodeError Argument) = .ok a ↔ c ∧ a = b := by
  by_cases hc : c
  · simp [hc, eq_comm]
  · simp [hc]

theorem FrameKind.ofName_name (k : FrameKind) : ofName k.name = .ok k := by
  cases k <;> rfl

theorem VarRef.ofText_display (h : isIdentifier v.name.toList = true) :
    ofText v.display = .ok v := by
  have hm : '@' ∉ v.frame.name.toList := by
    cases v.frame <;> decide
  have hd : v.display.toList = v.frame.name.toList ++ '@' :: v.name.toList := by
    simp [display]
  simp only [ofText, hd, cut?_append hm, String.ofList_toList, FrameKind.ofName_name, h, ↓reduceIte]

theorem VarRef.isIdentifier_of_ofText (h : ofText text = .ok v) :
    isIdentifier v.name.toList = true := by
  rw [ofText] at h
  split at h
  · cases h
  · split at h
    · cases h
    · split at h
      · next hn =>
        cases h
        rwa [String.toList_ofList]
      · cases h

namespace Argument

/-- The argument is shown with its kind, in a text that is read as the argument again. -/
def Respelled (t : ArgumentType) (a : Argument) : Prop :=
  ∃ text, a.display = t.mark ++ text ∧ decode text t = .ok a

/-- Names and keywords have but one spelling. -/
theorem Respelled.verbatim (ht : t ∈ [.label, .type, .bool, .nil]) (h : decode text t = .ok a) :
    Respelled t a := by
  refine ⟨text, ?_, h⟩
  simp only [List.mem_cons, List.not_mem_nil, or_false] at ht
  rcases ht with rfl | rfl | rfl | rfl
  · obtain ⟨-, rfl⟩ := ite_eq_ok.1 h
    exact String.empty_append.symm
  · obtain ⟨-, rfl⟩ := ite_eq_ok.1 h
    exact String.empty_append.symm
  · obtain ⟨x, hx, rfl⟩ := literalOr_eq_ok.1 h
    obtain ⟨rfl, rfl⟩ | ⟨rfl, rfl⟩ : text = "true" ∧ x = .bool true ∨
        text = "false" ∧ x = .bool false := by
      split at hx
      · next ht => exact .inl ⟨ht, (Option.some_inj.1 hx).symm⟩
      · rw [Option.ite_none_right_eq_some, Option.some_inj] at hx
        exact .inr ⟨hx.1, hx.2.symm⟩
    · rfl
    · rfl
  · obtain ⟨x, hx, rfl⟩ := literalOr_eq_ok.1 h
    rw [Option.ite_none_right_eq_some, Option.some_inj] at hx
    obtain ⟨rfl, rfl⟩ := hx
    rfl

theorem Respelled.var (h : decode text .var = .ok a) : Respelled .var a := by
  obtain ⟨v, hv, rfl⟩ := Except.map_eq_ok.1 h
  refine ⟨v.display, (String.empty_append).symm, ?_⟩
  rw [decode, VarRef.ofText_display (VarRef.isIdentifier_of_ofText hv)]
  rfl

theorem Respelled.string (h : decode text .string = .ok a) : Respelled .string a := by
  obtain ⟨x, hx, rfl⟩ := literalOr_eq_ok.1 h
  obtain ⟨s, hs, rfl⟩ := Option.map_eq_some_iff.1 hx
  refine ⟨String.ofList (Escaped.encode s), ?_, ?_⟩
  · simp [display, Value.describe, ArgumentType.mark, ArgumentType.name]
  · rw [decode, String.toList_ofList, Escaped.decode_encode, Escaped.any_isFarBlank_of_decode hs]
    rfl

theorem Respelled.int (h : decode text .int = .ok a) : Respelled .int a := by
  obtain ⟨x, hx, rfl⟩ := literalOr_eq_ok.1 h
  obtain ⟨n, -, rfl⟩ := Option.map_eq_some_iff.1 hx
  refine ⟨(Value.int n).display, rfl, ?_⟩
  rw [decode, Value.display, String.toList_ofList, Numeral.int64?_write]
  rfl

theorem Respelled.float (h : decode text .float = .ok a)
    (hn : ∀ x, a = .literal (.float x) → x.isNaN = false) : Respelled .float a := by
  obtain ⟨x, hx, rfl⟩ := literalOr_eq_ok.1 h
  obtain ⟨x, -, rfl⟩ := Option.map_eq_some_iff.1 hx
  refine ⟨(Value.float x).display, rfl, ?_⟩
  rw [decode, Binary64.toList_display, Binary64.read?_write (hn x rfl)]
  rfl

/-- Every argument that is read is shown the way it is written, behind its kind. -/
theorem display_round_trip (h : decode text t = .ok a)
    (hn : ∀ x, a = .literal (.float x) → x.isNaN = false) :
    ∃ text', a.display = t.mark ++ text' ∧ decode text' t = .ok a := by
  cases t with
  | var => exact Respelled.var h
  | string => exact Respelled.string h
  | int => exact Respelled.int h
  | float => exact Respelled.float h hn
  | label | type | bool | nil => exact Respelled.verbatim (by decide) h

/-- A number in decimal notation is shown in hexadecimal notation. -/
theorem display_round_trip_decimal :
    decode "-25e-1" .float = .ok (.literal (.float ⟨0xC004000000000000⟩)) ∧
      ∃ text, (literal (.float ⟨0xC004000000000000⟩)).display = "float@" ++ text ∧
        decode text .float = .ok (.literal (.float ⟨0xC004000000000000⟩)) := by
  have hr : Binary64.read? "-25e-1".toList = some ⟨0xC004000000000000⟩ := by decide +kernel
  have h : decode "-25e-1" .float = .ok (.literal (.float ⟨0xC004000000000000⟩)) := by
    rw [decode, hr]
    rfl
  refine ⟨h, display_round_trip h fun x hx ↦ ?_⟩
  cases hx
  decide

end Argument

end ThreeAddress
