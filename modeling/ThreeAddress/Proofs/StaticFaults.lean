import Mathlib
import ThreeAddress.Proofs.Faults
import ThreeAddress.Proofs.Session

namespace ThreeAddress

theorem Fault.isStatic_of_ordinary {f : Fault} (h : f.ordinary = true) : f.isStatic = false := by
  rw [ordinary, Bool.and_eq_true, Bool.not_eq_true'] at h
  exact h.1

theorem Fault.isStatic_eq_false {f : Fault} :
    f.isStatic = false ↔
      (∀ slot, f ≠ .malformedOperand slot) ∧ (∀ name, f ≠ .unsupportedReadType name) ∧
        (∀ name, f ≠ .undefinedLabel name) ∧ ∀ name, f ≠ .duplicateLabel name := by
  cases f <;> simp [isStatic]

theorem Fault.kind_of_ordinary {f : Fault} (h : f.ordinary = true) : f.kind ≠ .internal := by
  simp only [ordinary, Bool.and_eq_true, bne_iff_ne] at h
  exact h.2

namespace Machine.Session

variable {text : String} {p : Program} {m₀ m m' : Machine} {e : RuntimeError} {i : Instruction}
  {fuel : Nat}

theorem instruction_ready (hp : Program.load text = .ok m₀.program)
    (h : Session m₀ .running m) (hi : m.instruction? = some i) :
    i.WellFormed ∧ m.labels.unresolved? i = none := by
  have hm : i ∈ m.program.instructions := List.mem_of_getElem? hi
  rw [h.program_eq] at hm
  exact ⟨Program.load_wellFormed hp i hm, Labels.resolve_ok h.labels_resolved i hm⟩

theorem advance_fault (hp : Program.load text = .ok m₀.program)
    (h : Session m₀ .running m) (ha : m.advance = (m', some (.failed e))) :
    e.fault.ordinary = true ∨
      e.fault = .output ∧ ∃ i, m.instruction? = some i ∧ i.Refused m := by
  obtain ⟨i, hi, hs, -⟩ := advance_failed ha
  obtain ⟨hw, ht⟩ := h.instruction_ready hp hi
  exact (Instruction.step_error hw ht hs).imp_right fun ⟨hf, hr⟩ ↦ ⟨hf, i, hi, hr⟩

theorem execute_failed (h : Session m₀ .idle m) (he : m.execute fuel = (m', some (.failed e))) :
    (∃ m₁, Session m₀ .running m₁ ∧ m₁.advance = (m', some (.failed e))) ∨
      m = m₀ ∧ m' = m₀ ∧ Labels.resolve m₀.program = .error e := by
  simp only [Machine.execute] at he
  cases hs : m.start with
  | ok m₁ =>
    rw [hs] at he
    exact .inl ((h.start hs).run_some he)
  | error e' =>
    rw [hs] at he
    cases he
    have hr := start_error hs
    rw [h.program_eq] at hr
    rcases h.resolved_or_fresh with rfl | ⟨t, ht⟩
    · exact .inr ⟨rfl, rfl, hr⟩
    · rw [ht] at hr
      cases hr

end Machine.Session

namespace Machine

variable {text : String} {p : Program}

/-- No step of a loaded program complains of a malformed operand, of a type that cannot be read or
of a label, and none is to blame for an internal error: a stream refuses its text. A call of
`execute` complains of labels before anything has run, or never. -/
theorem loaded_program_faults (hp : Program.load text = .ok p) (input : List UInt8)
    (output diagnostics : Sink) :
    (∀ m m' e, Session (fresh p input output diagnostics) .running m →
      m.advance = (m', some (.failed e)) →
      e.fault.isStatic = false ∧
        (e.fault.kind = .internal →
          e.fault = .output ∧ ∃ i, m.instruction? = some i ∧ i.Refused m)) ∧
    (∀ m m' e fuel, Session (fresh p input output diagnostics) .idle m →
      m.execute fuel = (m', some (.failed e)) →
      (∀ slot, e.fault ≠ .malformedOperand slot) ∧
        (∀ name, e.fault ≠ .unsupportedReadType name) ∧
        (∀ name, e.fault = .undefinedLabel name ∨ e.fault = .duplicateLabel name →
          m = fresh p input output diagnostics ∧ m' = fresh p input output diagnostics) ∧
        (e.fault.kind = .internal → e.fault = .output)) := by
  have hstep : ∀ m m' e, Session (fresh p input output diagnostics) .running m →
      m.advance = (m', some (.failed e)) →
      e.fault.isStatic = false ∧
        (e.fault.kind = .internal →
          e.fault = .output ∧ ∃ i, m.instruction? = some i ∧ i.Refused m) := by
    intro m m' e hm ha
    rcases hm.advance_fault hp ha with ho | ⟨hf, hr⟩
    · exact ⟨Fault.isStatic_of_ordinary ho, fun hk ↦ absurd hk (Fault.kind_of_ordinary ho)⟩
    · exact ⟨by rw [hf]; rfl, fun _ ↦ ⟨hf, hr⟩⟩
  refine ⟨hstep, ?_⟩
  intro m m' e fuel hm he
  rcases hm.execute_failed he with ⟨m₁, hm₁, ha⟩ | ⟨rfl, rfl, hr⟩
  · obtain ⟨hs, hk⟩ := hstep m₁ m' e hm₁ ha
    obtain ⟨h₁, h₂, h₃, h₄⟩ := Fault.isStatic_eq_false.1 hs
    exact ⟨h₁, h₂, fun name hf ↦ (hf.elim (h₃ name) (h₄ name)).elim, fun h ↦ (hk h).1⟩
  · rcases Labels.resolve_error hr with ⟨name, hf⟩ | ⟨name, hf⟩
    all_goals
      rw [hf]
      exact ⟨by simp, by simp, fun _ _ ↦ ⟨rfl, rfl⟩, fun hk ↦ by cases hk⟩

/-- An internal error does come about, and it is about the output. -/
theorem loaded_program_faults_write :
    ∃ p m e, Program.load ("<program language=\"IPPcode22\">" ++
        "<instruction order=\"1\" opcode=\"WRITE\"><arg1 type=\"string\">a</arg1></instruction>" ++
        "</program>") = .ok p ∧
      (fresh p [] { limit := some 0 } {}).execute 1 = (m, some (.failed e)) ∧
      e.fault.kind = .internal ∧ e.fault = .output := by
  have hr : Markup.Element.read ("<program language=\"IPPcode22\">" ++
      "<instruction order=\"1\" opcode=\"WRITE\"><arg1 type=\"string\">a</arg1></instruction>" ++
      "</program>") = .ok {
        name := "program"
        attributes := [("language", "IPPcode22")]
        children := [{
          name := "instruction"
          attributes := [("order", "1"), ("opcode", "WRITE")]
          children := [
            { name := "arg1", attributes := [("type", "string")], text := "a" }] }] } := by
    cbv
  have hp := Program.load_of_read hr
  rw [Markup.Element.toProgram_of_instructions (l := [⟨1, .write, [.literal (.string "a")]⟩]) rfl
    (by cbv) (by cbv)] at hp
  have he : (fresh (.ofList [⟨1, .write, [.literal (.string "a")]⟩]) []
      { limit := some 0 } {}).execute 1 =
      (fresh (.ofList [⟨1, .write, [.literal (.string "a")]⟩]) [] { limit := some 0 } {},
        some (.failed ⟨.output, 1, .write⟩)) := by
    cbv
  exact ⟨_, _, _, hp, he, rfl, ((loaded_program_faults hp _ _ _).2 _ _ _ _ .fresh he).2.2.2 rfl⟩

end Machine

end ThreeAddress
