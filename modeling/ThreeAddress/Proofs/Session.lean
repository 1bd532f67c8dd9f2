import ThreeAddress.Proofs.Keeps
import ThreeAddress.Run

namespace ThreeAddress.Machine

open Effect

def fresh (p : Program) (input : List UInt8) (output diagnostics : Sink) : Machine :=
  { program := p, input, output, diagnostics }

/-- Whether a machine is between two calls of `execute` or within one. -/
inductive Phase
  | idle
  | running

/-- The machines met when `execute` is called on a machine again and again. -/
inductive Session (m₀ : Machine) : Phase → Machine → Prop
  | fresh : Session m₀ .idle m₀
  | start {m m' : Machine} : Session m₀ .idle m → m.start = .ok m' → Session m₀ .running m'
  | next {m m' : Machine} :
      Session m₀ .running m → m.advance = (m', none) → Session m₀ .running m'
  | stop {m m' : Machine} {o : Outcome} :
      Session m₀ .running m → m.advance = (m', some o) → Session m₀ .idle m'

variable {m₀ m m' : Machine} {o : Outcome} {fuel : Nat}

theorem advance_of_ok {i : Instruction} {flow : Flow} (hi : m.instruction? = some i)
    (h : i.step m = .ok flow m') : m.advance = m'.follow flow := by
  simp only [advance, hi, h]

theorem advance_of_error {i : Instruction} {f : Fault} (hi : m.instruction? = some i)
    (h : i.step m = .error f m') : m.advance = (m', some (.failed (.ofInstruction i f))) := by
  simp only [advance, hi, h]

theorem follow_outcome {flow : Flow} {e : RuntimeError} :
    (m.follow flow).2 ≠ some (.failed e) := by
  cases flow <;> simp [follow]

theorem advance_failed {e : RuntimeError} (h : m.advance = (m', some (.failed e))) :
    ∃ i, m.instruction? = some i ∧ i.step m = .error e.fault m' ∧ e = .ofInstruction i e.fault := by
  simp only [advance] at h
  cases hi : m.instruction? with
  | none => simp only [hi, Prod.mk.injEq, Option.some.injEq, reduceCtorEq, and_false] at h
  | some i =>
    simp only [hi] at h
    cases hs : i.step m with
    | ok flow m₁ =>
      simp only [hs] at h
      exact absurd (congrArg Prod.snd h) follow_outcome
    | error f m₁ =>
      simp only [hs, Prod.mk.injEq, Option.some.injEq, Outcome.failed.injEq] at h
      obtain ⟨rfl, rfl⟩ := h
      exact ⟨i, rfl, hs, rfl⟩

theorem follow_program (flow : Flow) : (m.follow flow).1.program = m.program := by
  cases flow <;> rfl

theorem follow_labels (flow : Flow) : (m.follow flow).1.labels = m.labels := by
  cases flow <;> rfl

theorem advance_program_labels (m : Machine) :
    m.advance.1.program = m.program ∧ m.advance.1.labels = m.labels := by
  cases hi : m.instruction? with
  | none => simp only [advance, hi, and_self]
  | some i =>
    have hc := i.step_control m
    cases hs : i.step m with
    | ok flow m₁ =>
      rw [after_of_ok hs, control, control, Prod.mk.injEq, Prod.mk.injEq] at hc
      rw [advance_of_ok hi hs, follow_program, follow_labels]
      exact ⟨hc.1, hc.2.1⟩
    | error f m₁ =>
      rw [after_of_error hs, control, control, Prod.mk.injEq, Prod.mk.injEq] at hc
      rw [advance_of_error hi hs]
      exact ⟨hc.1, hc.2.1⟩

theorem start_ok (h : m.start = .ok m') :
    ∃ t, Labels.resolve m.program = .ok t ∧ m' = { m with labels := t } := by
  simp only [start] at h
  cases ht : Labels.resolve m.program with
  | ok t =>
    rw [ht] at h
    cases h
    exact ⟨t, rfl, rfl⟩
  | error e =>
    rw [ht] at h
    cases h

theorem start_error {e : RuntimeError} (h : m.start = .error e) :
    Labels.resolve m.program = .error e := by
  simp only [start] at h
  cases ht : Labels.resolve m.program with
  | ok t =>
    rw [ht] at h
    cases h
  | error e' =>
    rw [ht] at h
    cases h
    rfl

theorem execute_of_start (h : m.start = .ok m') (fuel : Nat) : m.execute fuel = m'.run fuel := by
  simp only [execute, h]

theorem execute_of_start_error {e : RuntimeError} (h : m.start = .error e) (fuel : Nat) :
    m.execute fuel = (m, some (.failed e)) := by
  simp only [execute, h]

theorem run_of_next (h : m.advance = (m', none)) : m.run (fuel + 1) = m'.run fuel := by
  simp only [run, h]

theorem run_of_stop (h : m.advance = (m', some o)) : m.run (fuel + 1) = (m', some o) := by
  simp only [run, h]

theorem run_succ_of_none (h : m.run fuel = (m', none)) : m.run (fuel + 1) = m'.run 1 := by
  induction fuel generalizing m with
  | zero =>
    cases h
    rfl
  | succ fuel ih =>
    simp only [run] at h
    split at h
    · next m₁ ha =>
      rw [run, ha]
      exact ih h
    · cases h

theorem run_one_of_none (h : m.advance = (m', none)) : m.run 1 = (m', none) := by
  rw [run, h]
  rfl

namespace Session

variable {phase : Phase}

theorem program_eq (h : Session m₀ phase m) : m.program = m₀.program := by
  induction h with
  | fresh => rfl
  | start _ hs ih =>
    obtain ⟨t, -, rfl⟩ := start_ok hs
    exact ih
  | @next m m' _ ha ih | @stop m m' _ _ ha ih =>
    have hp := (advance_program_labels m).1
    rw [ha] at hp
    exact hp.trans ih

theorem labels_resolved (h : Session m₀ .running m) :
    Labels.resolve m₀.program = .ok m.labels := by
  generalize hp : Phase.running = phase at h
  induction h with
  | fresh | stop _ _ _ => cases hp
  | start hm hs _ =>
    obtain ⟨t, ht, rfl⟩ := start_ok hs
    rwa [hm.program_eq] at ht
  | @next m m' _ ha ih =>
    have hl := (advance_program_labels m).2
    rw [ha] at hl
    rw [hl]
    exact ih hp

theorem resolved_or_fresh (h : Session m₀ .idle m) :
    m = m₀ ∨ ∃ t, Labels.resolve m₀.program = .ok t := by
  cases h with
  | fresh => exact .inl rfl
  | stop hm _ => exact .inr ⟨_, hm.labels_resolved⟩

theorem run_none (h : Session m₀ .running m) (hr : m.run fuel = (m', none)) :
    Session m₀ .running m' := by
  induction fuel generalizing m with
  | zero =>
    cases hr
    exact h
  | succ fuel ih =>
    simp only [run] at hr
    split at hr
    · next m₁ ha => exact ih (h.next ha) hr
    · cases hr

theorem run_some (h : Session m₀ .running m) (hr : m.run fuel = (m', some o)) :
    ∃ m₁, Session m₀ .running m₁ ∧ m₁.advance = (m', some o) := by
  induction fuel generalizing m with
  | zero => cases hr
  | succ fuel ih =>
    simp only [run] at hr
    split at hr
    · next m₁ ha => exact ih (h.next ha) hr
    · next m₁ o' ha =>
      cases hr
      exact ⟨m, h, ha⟩

theorem execute (h : Session m₀ .idle m) (he : m.execute fuel = (m', some o)) :
    Session m₀ .idle m' := by
  simp only [Machine.execute] at he
  cases hs : m.start with
  | ok m₁ =>
    rw [hs] at he
    obtain ⟨m₂, hm₂, ha⟩ := (h.start hs).run_some he
    exact hm₂.stop ha
  | error e =>
    rw [hs] at he
    cases he
    exact h

/-- Conversely, every machine met within a call is one that `execute` comes to. -/
theorem reached (h : Session m₀ .running m) :
    ∃ m₁ fuel, Session m₀ .idle m₁ ∧ m₁.execute fuel = (m, none) := by
  generalize hp : Phase.running = phase at h
  induction h with
  | fresh | stop _ _ _ => cases hp
  | @start m m' hm hs _ => exact ⟨m, 0, hm, by simp only [Machine.execute, hs, run]⟩
  | next _ ha ih =>
    obtain ⟨m₁, fuel, hm₁, he⟩ := ih hp
    refine ⟨m₁, fuel + 1, hm₁, ?_⟩
    simp only [Machine.execute] at he ⊢
    cases hs : m₁.start with
    | ok m₂ =>
      simp only [hs] at he ⊢
      rw [run_succ_of_none he, run_one_of_none ha]
    | error e => simp only [hs, Prod.mk.injEq, reduceCtorEq, and_false] at he

end Session

end ThreeAddress.Machine
