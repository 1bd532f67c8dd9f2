import ThreeAddress.Labels
import ThreeAddress.Proofs.Except

namespace ThreeAddress.Labels

variable {p : Program} {t t' : Labels} {e : RuntimeError} {i : Instruction}

theorem define_error {index : Nat} (h : t.define i index = .error e) :
    ∃ name, e.fault = .duplicateLabel name := by
  simp only [define] at h
  split at h
  · next name _ _ =>
    split at h
    · cases h
      exact ⟨name, rfl⟩
    · cases h
  · cases h

theorem defineAll_error {l : List (Instruction × Nat)}
    (h : l.foldlM (fun t i ↦ t.define i.1 i.2) t = .error e) :
    ∃ name, e.fault = .duplicateLabel name := by
  induction l generalizing t with
  | nil => cases h
  | cons i l ih =>
    rw [List.foldlM_cons] at h
    rcases Except.bind_eq_error.1 h with h | ⟨t', -, h⟩
    · exact define_error h
    · exact ih h

theorem unresolved?_fault (h : t.unresolved? i = some e) :
    ∃ name, e.fault = .undefinedLabel name := by
  simp only [unresolved?] at h
  split at h
  · next name _ =>
    split at h
    · cases h
      exact ⟨name, rfl⟩
    · cases h
  · cases h

theorem resolve_error (h : resolve p = .error e) :
    (∃ name, e.fault = .duplicateLabel name) ∨ ∃ name, e.fault = .undefinedLabel name := by
  rcases Except.bind_eq_error.1 h with h | ⟨t, -, h⟩
  · exact .inl (defineAll_error h)
  · split at h
    · next e' he =>
      cases h
      obtain ⟨i, -, hi⟩ := List.exists_of_findSome?_eq_some he
      exact .inr (unresolved?_fault hi)
    · cases h

theorem resolve_ok (h : resolve p = .ok t) : ∀ i ∈ p.instructions, t.unresolved? i = none := by
  obtain ⟨t', -, h⟩ := Except.bind_eq_ok.1 h
  split at h
  · cases h
  · next hn =>
    cases h
    exact List.findSome?_eq_none_iff.1 hn

theorem target?_of_resolved {name : String} (h : t.unresolved? i = none)
    (ho : i.opcode.referencesLabel = true) (hname : i.label? = some name) :
    ∃ n, t.target? name = some n := by
  simp only [unresolved?, hname, ho, Bool.true_and, ite_eq_right_iff, reduceCtorEq, imp_false,
    Option.isNone_iff_eq_none] at h
  exact Option.ne_none_iff_exists'.1 h

end ThreeAddress.Labels
