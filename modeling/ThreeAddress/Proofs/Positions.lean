import ThreeAddress.Proofs.Nesting

namespace ThreeAddress

namespace Labels

variable {p : Program} {t t' : Labels} {i : Instruction} {k : Nat}

/-- Each label stands for the position behind the instruction that defines it. -/
def Located (t : Labels) (p : Program) : Prop :=
  ∀ name n, (name, n) ∈ t.targets → 0 < n ∧ n ≤ p.instructions.length ∧
    ∃ i, p.instructions[n - 1]? = some i ∧ i.opcode = .label ∧ i.label? = some name

theorem define_ok (h : t.define i k = .ok t') :
    t' = t ∨ ∃ name, i.opcode = .label ∧ i.label? = some name ∧
      t' = ⟨(name, k + 1) :: t.targets⟩ := by
  simp only [define] at h
  split at h
  · next name ho hl =>
    split at h
    · cases h
    · exact .inr ⟨name, ho, hl, (Except.ok.inj h).symm⟩
  · exact .inl (Except.ok.inj h).symm

theorem Located.define (ht : t.Located p) (hi : p.instructions[k]? = some i)
    (h : t.define i k = .ok t') : t'.Located p := by
  rcases define_ok h with rfl | ⟨name, ho, hl, rfl⟩
  · exact ht
  · intro key n hn
    rcases List.mem_cons.1 hn with hn | hn
    · obtain ⟨rfl, rfl⟩ := Prod.mk.inj hn
      obtain ⟨hk, -⟩ := List.getElem?_eq_some_iff.1 hi
      exact ⟨Nat.succ_pos k, hk, i, hi, ho, hl⟩
    · exact ht key n hn

theorem Located.defineAll {l : List (Instruction × Nat)} (ht : t.Located p)
    (hl : ∀ i ∈ l, p.instructions[i.2]? = some i.1)
    (h : l.foldlM (fun t i ↦ t.define i.1 i.2) t = .ok t') : t'.Located p := by
  induction l generalizing t with
  | nil =>
    cases h
    exact ht
  | cons i l ih =>
    rw [List.foldlM_cons] at h
    obtain ⟨t₁, h₁, h⟩ := Except.bind_eq_ok.1 h
    have ht₁ : t₁.Located p := ht.define (hl i List.mem_cons_self) h₁
    exact ih ht₁ (fun j hj ↦ hl j (List.mem_cons_of_mem i hj)) h

theorem resolve_located (h : resolve p = .ok t) : t.Located p := by
  obtain ⟨t', ht', h⟩ := Except.bind_eq_ok.1 h
  split at h
  · cases h
  · cases h
    have h₀ : Located {} p := fun _ _ hn ↦ absurd hn List.not_mem_nil
    refine h₀.defineAll ?_ ht'
    exact fun _ hi ↦ List.mem_zipIdx_iff_getElem?.1 hi

theorem Located.target_le {name : String} {n : Nat} (ht : t.Located p)
    (h : t.target? name = some n) : n ≤ p.instructions.length := by
  obtain ⟨l₁, l₂, hl, -⟩ := List.lookup_eq_some_iff.1 h
  have hn : (name, n) ∈ t.targets := by
    rw [hl]
    exact List.mem_append_right l₁ List.mem_cons_self
  exact (ht name n hn).2.1

end Labels

namespace Instruction

variable {i : Instruction} {m m' : Machine} {flow : Flow} {n : Nat}

theorem exists_target_of_goal {t : Labels} (h : i.goal t = .ok n) :
    ∃ name, t.target? name = some n := by
  simp only [goal] at h
  split at h
  · next name _ =>
    split at h
    · next hn =>
      cases h
      exact ⟨name, hn⟩
    · cases h
  · cases h

/-- A jump goes to a label, or behind the call that was made last. -/
theorem Completes.jump_eq (h : i.Completes m flow m') (hf : flow = .jump n) :
    (∃ name, m.labels.target? name = some n) ∨ ∃ c ∈ m.calls, n = c + 1 := by
  cases h with
  | call _ hn | jump _ hn =>
    cases hf
    exact .inl (exists_target_of_goal hn)
  | ret _ hr =>
    cases hf
    exact .inr ⟨_, by rw [hr]; exact List.mem_cons_self, rfl⟩
  | @jumpIf _ _ _ _ taken _ hn | @jumpIfStack _ _ _ _ _ taken _ hn =>
    cases taken with
    | true =>
      cases hf
      exact .inl (exists_target_of_goal hn)
    | false => cases hf
  | _ => cases hf

end Instruction

namespace Machine

/-- The position, the calls in progress and the labels are all within the program. -/
structure InProgram (m : Machine) : Prop where
  pc : m.pc ≤ m.program.instructions.length
  calls : ∀ c ∈ m.calls, ∃ i, m.program.instructions[c]? = some i ∧ i.opcode = .call
  labels : m.labels.Located m.program

variable {m₀ m m' : Machine} {i : Instruction} {flow : Flow} {phase : Phase} {n : Nat}

namespace InProgram

theorem call_lt (hm : m.InProgram) {c : Nat} (hc : c ∈ m.calls) :
    c < m.program.instructions.length := by
  obtain ⟨i, hi, -⟩ := hm.calls c hc
  exact (List.getElem?_eq_some_iff.1 hi).1

theorem jump_le (hm : m.InProgram) (h : i.Completes m flow m') (hf : flow = .jump n) :
    n ≤ m.program.instructions.length := by
  rcases h.jump_eq hf with ⟨name, hn⟩ | ⟨c, hc, rfl⟩
  · exact hm.labels.target_le hn
  · exact hm.call_lt hc

/-- What an instruction changes of the calls is to call from where it stands, or to return. -/
theorem calls_of_completes (hm : m.InProgram) (hi : m.instruction? = some i)
    (h : i.Completes m flow m') :
    ∀ c ∈ m'.calls, ∃ j, m.program.instructions[c]? = some j ∧ j.opcode = .call := by
  intro c hc
  rcases h.calls with ⟨ho, he⟩ | ⟨-, b, hb, -⟩ | ⟨-, -, he⟩
  · rw [he] at hc
    rcases List.mem_cons.1 hc with rfl | hc
    · exact ⟨i, hi, ho⟩
    · exact hm.calls c hc
  · exact hm.calls c (by rw [hb]; exact List.mem_cons_of_mem b hc)
  · exact hm.calls c (by rwa [he] at hc)

theorem follow (hm : m.InProgram) (hi : m.instruction? = some i) (h : i.Completes m flow m') :
    (m'.follow flow).1.InProgram := by
  have hc := i.step_control m
  rw [Effect.after_of_ok h.step] at hc
  obtain ⟨hp, hl, hpc, -⟩ : m'.program = m.program ∧ m'.labels = m.labels ∧ m'.pc = m.pc ∧
      m'.executed = m.executed := by
    simpa only [control, Prod.mk.injEq] using hc
  obtain ⟨hlt, -⟩ := List.getElem?_eq_some_iff.1 hi
  refine ⟨?_, ?_, ?_⟩
  · rw [follow_program, hp]
    cases flow with
    | next =>
      simp only [Machine.follow, hpc]
      exact hlt
    | jump n => exact hm.jump_le h rfl
    | exit code =>
      simp only [Machine.follow, hpc]
      exact hm.pc
  · rw [follow_program, follow_calls, hp]
    exact hm.calls_of_completes hi h
  · rw [follow_program, follow_labels, hp, hl]
    exact hm.labels

theorem advance (hm : m.InProgram) : m.advance.1.InProgram := by
  cases hi : m.instruction? with
  | none => simpa only [Machine.advance, hi] using hm
  | some i =>
    cases hs : i.step m with
    | ok flow m₁ =>
      rw [advance_of_ok hi hs]
      exact hm.follow hi (.of_step hs)
    | error f m₁ =>
      rw [advance_of_error hi hs]
      cases Instruction.Fails.of_step hs with
      | unresolved | taken | read | write | dprint => exact ⟨hm.pc, hm.calls, hm.labels⟩

end InProgram

theorem Session.inProgram (h₀ : m₀.InProgram) (h : Session m₀ phase m) : m.InProgram := by
  induction h with
  | fresh => exact h₀
  | start _ hs ih =>
    obtain ⟨t, ht, rfl⟩ := start_ok hs
    exact ⟨ih.pc, ih.calls, Labels.resolve_located ht⟩
  | next _ ha ih | stop _ ha ih =>
    have hm := ih.advance
    rwa [ha] at hm

theorem inProgram_fresh (p : Program) (input : List UInt8) (output diagnostics : Sink) :
    (fresh p input output diagnostics).InProgram where
  pc := Nat.zero_le _
  calls _ hc := absurd hc List.not_mem_nil
  labels _ _ hn := absurd hn List.not_mem_nil

/-- However often and however far a program is run, the machine stands in the program or at its end,
it returns behind calls of the program, and labels stand for positions behind their definitions. No
jump and no return leaves the program. -/
theorem control_in_program {p : Program} {input : List UInt8} {output diagnostics : Sink}
    (h : Session (fresh p input output diagnostics) phase m) :
    m.program = p ∧ m.InProgram ∧ (∀ c ∈ m.calls, c + 1 ≤ p.instructions.length) ∧
      ∀ i n m', m.instruction? = some i → i.step m = .ok (.jump n) m' →
        n ≤ p.instructions.length := by
  have hp : m.program = p := h.program_eq
  have hm : m.InProgram := h.inProgram (inProgram_fresh p input output diagnostics)
  refine ⟨hp, hm, fun c hc ↦ ?_, fun i n m' _ hs ↦ ?_⟩
  · rw [← hp]
    exact hm.call_lt hc
  · rw [← hp]
    exact hm.jump_le (.of_step hs) rfl

/-- The last instruction calls a function that returns at once. -/
def lastCallProgram : Program :=
  .ofList [⟨1, .jump, [.label "main"]⟩, ⟨2, .label, [.label "f"]⟩, ⟨3, .ret, []⟩,
    ⟨4, .label, [.label "main"]⟩, ⟨5, .call, [.label "f"]⟩]

def lastCall (pc executed : Nat) (calls : List Nat) : Machine :=
  { fresh lastCallProgram [] {} {} with
    labels := ⟨[("main", 4), ("f", 2)]⟩
    pc, executed, calls }

/-- The return from the last instruction goes to the end of the program. -/
theorem control_in_program_at_end :
    Session (fresh lastCallProgram [] {} {}) .running (lastCall 2 2 [4]) ∧
      (lastCall 2 2 [4]).instruction? = some ⟨3, .ret, []⟩ ∧
      Instruction.step ⟨3, .ret, []⟩ (lastCall 2 2 [4]) = .ok (.jump 5) (lastCall 2 2 []) ∧
      lastCallProgram.instructions.length = 5 ∧ (lastCall 2 2 [4]).InProgram ∧
      5 ≤ lastCallProgram.instructions.length := by
  have h₀ : Session (fresh lastCallProgram [] {} {}) .running (lastCall 0 0 []) :=
    .start .fresh (by cbv)
  have h₁ : Session (fresh lastCallProgram [] {} {}) .running (lastCall 4 1 []) :=
    .next h₀ (by cbv)
  have hm : Session (fresh lastCallProgram [] {} {}) .running (lastCall 2 2 [4]) :=
    .next h₁ (by cbv)
  have hi : (lastCall 2 2 [4]).instruction? = some ⟨3, .ret, []⟩ := by cbv
  have hs : Instruction.step ⟨3, .ret, []⟩ (lastCall 2 2 [4]) =
      .ok (.jump 5) (lastCall 2 2 []) := rfl
  obtain ⟨-, hp, -, hj⟩ := control_in_program hm
  exact ⟨hm, hi, hs, by cbv, hp, hj _ _ _ hi hs⟩

end Machine

end ThreeAddress
