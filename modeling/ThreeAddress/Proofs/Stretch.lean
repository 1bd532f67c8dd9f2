import ThreeAddress.Proofs.Session
import ThreeAddress.Proofs.Transitions

namespace ThreeAddress

theorem Instruction.Completes.exit_eq {i : Instruction} {m m' : Machine} {flow : Flow} {code : Nat}
    (h : i.Completes m flow m') (hf : flow = .exit code) : m' = m := by
  cases h with
  | exit | jumpIf => rfl
  | @jumpIfStack _ _ _ _ _ taken =>
    cases taken <;> cases hf
  | _ => cases hf

namespace Machine

/-- A stretch of a session, from one machine to another through machines of which `P` holds. Those
whose instruction completed and was followed by more are listed. -/
inductive Stretch (P : Machine → Prop) : Phase → Machine → List Machine → Phase → Machine → Prop
  | refl {phase : Phase} {m : Machine} : P m → Stretch P phase m [] phase m
  | start {m m₁ m' : Machine} {ms : List Machine} {phase : Phase} : P m → m.start = .ok m₁ →
      Stretch P .running m₁ ms phase m' → Stretch P .idle m ms phase m'
  | next {m m₁ m' : Machine} {ms : List Machine} {phase : Phase} : P m → m.advance = (m₁, none) →
      Stretch P .running m₁ ms phase m' → Stretch P .running m (m :: ms) phase m'
  | stop {m m₁ m' : Machine} {ms : List Machine} {phase : Phase} {o : Outcome} : P m →
      m.advance = (m₁, some o) → Stretch P .idle m₁ ms phase m' → Stretch P .running m ms phase m'

variable {P : Machine → Prop} {m₀ m m' : Machine} {ms : List Machine} {phase phase' : Phase}
  {i : Instruction} {o : Outcome}

theorem Stretch.first (h : Stretch P phase m ms phase' m') : P m := by
  cases h with
  | refl hm | start hm | next hm | stop hm => exact hm

theorem Stretch.last (h : Stretch P phase m ms phase' m') : P m' := by
  induction h with
  | refl hm => exact hm
  | start _ _ _ ih | next _ _ _ ih | stop _ _ _ ih => exact ih

theorem Session.stretch (h : Session m₀ phase m) (hs : Stretch P phase m ms phase' m') :
    Session m₀ phase' m' := by
  induction hs with
  | refl => exact h
  | start _ hs _ ih => exact ih (h.start hs)
  | next _ ha _ ih => exact ih (h.next ha)
  | stop _ ha _ ih => exact ih (h.stop ha)

theorem advance_next (h : m.advance = (m', none)) :
    ∃ i flow m₁, m.instruction? = some i ∧ i.Completes m flow m₁ ∧ m₁.follow flow = (m', none) := by
  simp only [advance] at h
  cases hi : m.instruction? with
  | none => simp only [hi, Prod.mk.injEq, reduceCtorEq, and_false] at h
  | some i =>
    simp only [hi] at h
    cases hs : i.step m with
    | ok flow m₁ =>
      simp only [hs] at h
      exact ⟨i, flow, m₁, rfl, .of_step hs, h⟩
    | error f m₁ => simp only [hs, Prod.mk.injEq, reduceCtorEq, and_false] at h

theorem follow_frames (flow : Flow) : (m.follow flow).1.frames = m.frames := by
  cases flow <;> rfl

theorem follow_calls (flow : Flow) : (m.follow flow).1.calls = m.calls := by
  cases flow <;> rfl

/-- How a run ends: behind the last instruction, by an exit or by a fault. -/
theorem advance_stop (h : m.advance = (m', some o)) :
    (m.instruction? = none ∧ m' = m ∧ o = .exit 0) ∨
      (∃ i code, m.instruction? = some i ∧ i.step m = .ok (.exit code) m ∧
        m' = { m with executed := m.executed + 1 } ∧ o = .exit code) ∨
      ∃ i f, m.instruction? = some i ∧ i.step m = .error f m' ∧
        o = .failed (.ofInstruction i f) := by
  cases hi : m.instruction? with
  | none =>
    simp only [advance, hi, Prod.mk.injEq, Option.some.injEq] at h
    exact .inl ⟨rfl, h.1.symm, h.2.symm⟩
  | some i =>
    cases hs : i.step m with
    | ok flow m₁ =>
      rw [advance_of_ok hi hs] at h
      cases flow with
      | next | jump => cases h
      | exit code =>
        cases h
        cases (Instruction.Completes.of_step hs).exit_eq rfl
        exact .inr (.inl ⟨i, code, rfl, hs, rfl, rfl⟩)
    | error f m₁ =>
      rw [advance_of_error hi hs] at h
      cases h
      exact .inr (.inr ⟨i, f, rfl, hs, rfl⟩)

/-- Where a run ends, no frame and no call is gone. -/
theorem stop_kept (h : m.advance = (m', some o)) :
    m'.frames = m.frames ∧ m'.calls = m.calls := by
  obtain ⟨-, rfl, -⟩ | ⟨i, code, -, -, rfl, -⟩ | ⟨i, f, -, hs, -⟩ := advance_stop h
  · exact ⟨rfl, rfl⟩
  · exact ⟨rfl, rfl⟩
  · cases Instruction.Fails.of_step hs with
    | unresolved | taken | read | write | dprint => exact ⟨rfl, rfl⟩

theorem start_kept (h : m.start = .ok m') : m'.frames = m.frames ∧ m'.calls = m.calls := by
  obtain ⟨t, -, rfl⟩ := start_ok h
  exact ⟨rfl, rfl⟩

end Machine

end ThreeAddress
