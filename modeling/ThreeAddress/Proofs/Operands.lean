import ThreeAddress.Proofs.Frames
import ThreeAddress.Proofs.Labels
import ThreeAddress.Proofs.Loading
import ThreeAddress.Proofs.Step

namespace ThreeAddress

namespace Argument

variable {a : Argument}

theorem fits_var : a.fits .var = true ↔ ∃ v, a = .var v := by
  cases a <;> simp [fits]

theorem fits_symb : a.fits .symb = true ↔ (∃ v, a = .var v) ∨ ∃ x, a = .literal x := by
  cases a <;> simp [fits]

theorem fits_label : a.fits .label = true ↔ ∃ name, a = .label name := by
  cases a <;> simp [fits]

theorem fits_type : a.fits .type = true ↔ ∃ name, a = .type name := by
  cases a <;> simp [fits]

theorem decode_type {text name : String} {declared : ArgumentType}
    (h : decode text declared = .ok (.type name)) : ∃ t, ReadType.ofName? name = some t := by
  cases declared with
  | type =>
    simp only [decode] at h
    split at h
    · next ht =>
      cases h
      exact Option.isSome_iff_exists.1 ht
    · cases h
  | var =>
    simp only [decode] at h
    cases hv : VarRef.ofText text <;> rw [hv] at h <;> cases h
  | label =>
    simp only [decode] at h
    split at h <;> cases h
  | string | int | bool | float | nil =>
    simp only [decode, literalOr] at h
    split at h <;> cases h

end Argument

namespace Instruction.WellFormed

variable {i : Instruction} {k : Nat} {kind : OperandKind} {fs : Frames} {f : Fault}

theorem slot (hi : i.WellFormed) (hk : i.opcode.signature[k]? = some kind) :
    ∃ a, i.arguments[k]? = some a ∧ a.fits kind = true := by
  obtain ⟨hl, hf⟩ := List.forall₂_iff_get.1 hi.fits
  obtain ⟨hlt, rfl⟩ := List.getElem?_eq_some_iff.1 hk
  have hlt' : k < i.arguments.length := hl ▸ hlt
  exact ⟨i.arguments[k], List.getElem?_eq_getElem hlt', hf k hlt' hlt⟩

theorem var_slot (hi : i.WellFormed) (hk : i.opcode.signature[k]? = some .var) :
    ∃ v, i.arguments[k]? = some (.var v) := by
  obtain ⟨a, ha, hf⟩ := hi.slot hk
  obtain ⟨v, rfl⟩ := Argument.fits_var.1 hf
  exact ⟨v, ha⟩

theorem type_slot (hi : i.WellFormed) (hk : i.opcode.signature[k]? = some .type) :
    ∃ name t, i.arguments[k]? = some (.type name) ∧ ReadType.ofName? name = some t := by
  obtain ⟨a, ha, hf⟩ := hi.slot hk
  obtain ⟨name, rfl⟩ := Argument.fits_type.1 hf
  obtain ⟨text, declared, hd⟩ := hi.decoded _ (List.mem_of_getElem? ha)
  obtain ⟨t, ht⟩ := Argument.decode_type hd
  exact ⟨name, t, ha, ht⟩

theorem label_slot (hi : i.WellFormed) (hk : i.opcode.signature[0]? = some .label) :
    ∃ name, i.arguments.head? = some (.label name) ∧ i.label? = some name := by
  obtain ⟨a, ha, hf⟩ := hi.slot hk
  obtain ⟨name, rfl⟩ := Argument.fits_label.1 hf
  cases hl : i.arguments with
  | nil => simp [hl] at ha
  | cons b l =>
    rw [hl, List.getElem?_cons_zero, Option.some_inj] at ha
    subst ha
    refine ⟨name, rfl, ?_⟩
    rw [label?, hl]
    rfl

theorem operand_error (hi : i.WellFormed) (hk : i.opcode.signature[k]? = some kind)
    (hs : kind = .var ∨ kind = .symb) (h : i.operand fs k = .error f) :
    ∃ v, i.arguments[k]? = some (.var v) ∧ fs.missing? v = some f := by
  obtain ⟨a, ha, hf⟩ := hi.slot hk
  rw [operand, ha] at h
  have hf' : a.fits .symb = true := by
    rcases hs with rfl | rfl
    · obtain ⟨v, rfl⟩ := Argument.fits_var.1 hf
      rfl
    · exact hf
  rcases Argument.fits_symb.1 hf' with ⟨v, rfl⟩ | ⟨x, rfl⟩
  · exact ⟨v, ha, Frames.get_error.1 h⟩
  · cases h

theorem place_error (hi : i.WellFormed) (hk : i.opcode.signature[k]? = some .var)
    (h : i.place fs k = .error f) :
    ∃ v, i.arguments[k]? = some (.var v) ∧ fs.missing? v = some f := by
  obtain ⟨v, hv⟩ := hi.var_slot hk
  simp only [place, varAt, hv, Except.ok_bind] at h
  rcases Except.bind_eq_error.1 h with h | ⟨x, -, h⟩
  · exact ⟨v, hv, Frames.get_error.1 h⟩
  · cases h

theorem goal_ok (hi : i.WellFormed) (ho : i.opcode.referencesLabel = true) {t : Labels}
    (ht : t.unresolved? i = none) : ∃ n, i.goal t = .ok n := by
  have hk : i.opcode.signature[0]? = some .label := by
    cases h : i.opcode <;> rw [h] at ho <;> first
      | rfl
      | cases ho
  obtain ⟨name, ha, hname⟩ := hi.label_slot hk
  obtain ⟨n, hn⟩ := Labels.target?_of_resolved ht ho hname
  exact ⟨n, by simp only [goal, ha, hn]⟩

end Instruction.WellFormed

end ThreeAddress
