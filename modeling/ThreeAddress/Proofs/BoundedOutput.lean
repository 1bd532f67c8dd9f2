import ThreeAddress.Proofs.Session
import ThreeAddress.Proofs.Sink
import ThreeAddress.Proofs.Transitions

namespace ThreeAddress

/-- The machine with another stream for its output. -/
def Machine.redirect (s : Sink) (m : Machine) : Machine := { m with output := s }

namespace Effect

variable {α β : Type} {m : Machine}

def redirectResult (s : Sink) :
    EStateM.Result Fault Machine α → EStateM.Result Fault Machine α
  | .ok a m => .ok a (m.redirect s)
  | .error e m => .error e (m.redirect s)

/-- The stream of output is no matter for what `x` does. -/
def Blind (x : Effect α) : Prop := ∀ m s, x (m.redirect s) = redirectResult s (x m)

namespace Blind

theorem pure (a : α) : Blind (Pure.pure a) := fun _ _ ↦ rfl

theorem bind {x : Effect α} {y : α → Effect β} (hx : Blind x) (hy : ∀ a, Blind (y a)) :
    Blind (x >>= y) := by
  intro m s
  rw [bind_apply, bind_apply, hx m s]
  cases x m with
  | ok a m₁ => exact hy a m₁ s
  | error e m₁ => rfl

theorem consult {r : Machine → Except Fault α} (h : ∀ m s, r (m.redirect s) = r m) :
    Blind (Effect.consult r) := by
  intro m s
  simp only [Effect.consult, h m s]
  cases r m <;> rfl

theorem reading (r : Frames → Except Fault α) : Blind (Effect.reading r) := consult fun _ _ ↦ rfl

theorem attempt (r : Except Fault α) : Blind (Effect.attempt r) := reading fun _ ↦ r

theorem changeFrames (F : Frames → Except Fault Frames) : Blind (Effect.changeFrames F) := by
  intro m s
  have hf : (m.redirect s).frames = m.frames := rfl
  rw [changeFrames_apply, changeFrames_apply, hf]
  cases F m.frames <;> rfl

theorem push (x : Value) : Blind (Effect.push x) := fun _ _ ↦ rfl

theorem pop : Blind Effect.pop := by
  intro m s
  have ho : (m.redirect s).operands = m.operands := rfl
  rw [pop_apply, pop_apply, ho]
  cases m.operands <;> rfl

theorem popCall : Blind Effect.popCall := by
  intro m s
  have hc : (m.redirect s).calls = m.calls := rfl
  rw [popCall_apply, popCall_apply, hc]
  cases m.calls <;> rfl

theorem require (b : Bool) (e : Fault) : Blind (Effect.require b e) := by
  intro m s
  cases b <;> rfl

/-- What does not look at the output does not change it either. -/
theorem output_after {x : Effect α} (h : Blind x) (m : Machine) :
    (x.after m).output = m.output := by
  have hm := h m m.output
  have hs : m.redirect m.output = m := rfl
  rw [hs] at hm
  cases hx : x m with
  | ok a m₁ =>
    rw [hx, redirectResult, EStateM.Result.ok.injEq] at hm
    rw [after_of_ok hx, hm.2]
    rfl
  | error e m₁ =>
    rw [hx, redirectResult, EStateM.Result.error.injEq] at hm
    rw [after_of_error hx, hm.2]
    rfl

end Blind

end Effect

open Effect

namespace Instruction

variable {i : Instruction} {m : Machine} {x : Value} {limit : Nat}

theorem definedSymbol_blind (i : Instruction) (k : Nat) : Blind (i.definedSymbol k) := by
  rw [definedSymbol_eq]
  exact .reading _

theorem destination_blind (i : Instruction) (k : Nat) : Blind (i.destination k) := by
  rw [destination_eq]
  exact .reading _

theorem target_blind (i : Instruction) : Blind i.target := by
  rw [target_eq]
  exact .consult fun _ _ ↦ rfl

theorem branch_blind (c : Condition) (n : Nat) (a b : Value) : Blind (branch c n a b) :=
  (Blind.attempt _).bind fun _ ↦ .pure _

theorem applyRead_blind (i : Instruction) : Blind i.applyRead := by
  rw [applyRead, typeName_eq]
  refine (i.destination_blind 0).bind fun v ↦ (Blind.reading _).bind fun type ↦ ?_
  have hl : Blind readLine := fun _ _ ↦ rfl
  exact hl.bind fun line ↦ (Blind.attempt _).bind fun x ↦ .changeFrames _

/-- No instruction but `WRITE` has to do with the output. -/
theorem step_blind (hw : i.opcode ≠ .write) : Blind i.step := by
  cases hF : i.reframe? with
  | some F =>
    rw [step_of_reframe? hF]
    exact (Blind.changeFrames F).bind fun _ ↦ .pure _
  | none =>
    cases ho : i.opcode <;> simp only [reframe?, ho, reduceCtorEq] at hF <;> simp only [step, ho]
    case call => exact i.target_blind.bind fun n _ _ ↦ rfl
    case ret => exact Blind.popCall.bind fun n ↦ .pure _
    case pushs => exact (i.definedSymbol_blind 0).bind fun x ↦ (Blind.push x).bind fun _ ↦ .pure _
    case pops =>
      refine (i.destination_blind 0).bind fun v ↦ Blind.pop.bind fun x ↦ ?_
      exact (Blind.changeFrames _).bind fun _ ↦ .pure _
    case clears => exact fun _ _ ↦ rfl
    case read => exact i.applyRead_blind.bind fun _ ↦ .pure _
    case write => exact absurd ho hw
    case label => exact .pure _
    case jump => exact i.target_blind.bind fun n ↦ .pure _
    case jumpIf c =>
      refine i.target_blind.bind fun n ↦ (i.definedSymbol_blind 1).bind fun a ↦ ?_
      exact (i.definedSymbol_blind 2).bind fun b ↦ branch_blind c n a b
    case exit => exact (i.definedSymbol_blind 0).bind fun x ↦ (Blind.attempt _).bind fun _ ↦ .pure _
    case dprint =>
      refine (i.definedSymbol_blind 0).bind fun x ↦ ?_
      have hp : Blind (printDiagnostics x.display) := fun _ _ ↦ rfl
      exact hp.bind fun b ↦ (Blind.require b _).bind fun _ ↦ .pure _
    case breakpoint => exact fun _ _ ↦ rfl
    case binaryStack op =>
      refine Blind.pop.bind fun b ↦ Blind.pop.bind fun a ↦ (Blind.attempt _).bind fun x ↦ ?_
      exact (Blind.push x).bind fun _ ↦ .pure _
    case unaryStack op =>
      refine Blind.pop.bind fun a ↦ (Blind.attempt _).bind fun x ↦ ?_
      exact (Blind.push x).bind fun _ ↦ .pure _
    case jumpIfStack c =>
      refine i.target_blind.bind fun n ↦ Blind.pop.bind fun b ↦ Blind.pop.bind fun a ↦ ?_
      exact branch_blind c n a b

end Instruction

namespace Machine

variable {m m₁ : Machine} {i : Instruction} {limit n : Nat} {r r' : Machine × Option Outcome}

/-- The machine with a limit to its output. -/
def limited (limit : Nat) (m : Machine) : Machine := m.redirect (m.output.limited limit)

theorem follow_redirect (s : Sink) (flow : Flow) :
    (m.redirect s).follow flow = ((m.follow flow).1.redirect s, (m.follow flow).2) := by
  cases flow <;> rfl

theorem follow_output (flow : Flow) : (m.follow flow).1.output = m.output := by
  cases flow <;> rfl

theorem advance_redirect (hi : m.instruction? = some i) (hw : i.opcode ≠ .write) (s : Sink) :
    (m.redirect s).advance = (m.advance.1.redirect s, m.advance.2) := by
  have hb := Instruction.step_blind hw m s
  have hi' : (m.redirect s).instruction? = some i := hi
  cases hs : i.step m with
  | ok flow m₁ =>
    rw [hs] at hb
    rw [advance_of_ok hi hs, advance_of_ok hi' hb, follow_redirect]
  | error e m₁ =>
    rw [hs] at hb
    rw [advance_of_error hi hs, advance_of_error hi' hb]

theorem advance_output (hi : m.instruction? = some i) (hw : i.opcode ≠ .write) :
    m.advance.1.output = m.output := by
  have ho := (Instruction.step_blind hw).output_after m
  cases hs : i.step m with
  | ok flow m₁ =>
    rw [after_of_ok hs] at ho
    rw [advance_of_ok hi hs, follow_output, ho]
  | error e m₁ =>
    rw [after_of_error hs] at ho
    rw [advance_of_error hi hs, ho]

/-- What `WRITE` comes to, by the text that it prints and what the stream makes of it. -/
theorem advance_write {x : Value} (hi : m.instruction? = some i) (ho : i.opcode = .write)
    (hx : i.held m.frames 0 = .ok x) :
    m.advance =
      if (m.output.write x.display).2 then (m.redirect (m.output.write x.display).1).follow .next
      else
        (m.redirect (m.output.write x.display).1, some (.failed (.ofInstruction i .output))) := by
  have hs := Instruction.step_write ho m
  cases hb : (m.output.write x.display).2 with
  | true => exact advance_of_ok hi (hs.trans (Instruction.printed_ok hx hb))
  | false => exact advance_of_error hi (hs.trans (Instruction.printed_refused hx hb))

theorem advance_write_error {e : Fault} (hi : m.instruction? = some i) (ho : i.opcode = .write)
    (hx : i.held m.frames 0 = .error e) :
    m.advance = (m, some (.failed (.ofInstruction i e))) := by
  refine advance_of_error hi ?_
  rw [Instruction.step_write ho, Instruction.printed, hx]

/-- Both runs have come to the same, and what they have written is within the limit. -/
structure Alongside (limit : Nat) (r r' : Machine × Option Outcome) : Prop where
  eq : r' = (r.1.limited limit, r.2)
  size : r.1.output.accepted.size ≤ limit

/-- The next instruction is to print a text that takes the output beyond the limit. -/
structure Overflows (limit : Nat) (m : Machine) (i : Instruction) : Prop where
  instruction : m.instruction? = some i
  opcode : i.opcode = .write
  text : ∃ x, i.held m.frames 0 = .ok x ∧
    limit < m.output.accepted.size + x.display.toUTF8.size

/-- The limited run has stopped at the machine `m`. It has written what fits of all that the other
run has written. -/
structure Cut (limit : Nat) (m : Machine) (i : Instruction) (r r' : Machine × Option Outcome) :
    Prop where
  overflow : m.Overflows limit i
  beyond : limit < r.1.output.accepted.size
  stopped : ∃ e, e.fault = .output ∧ e.fault.kind = .internal ∧ e.order = i.order ∧
    r' = (m.redirect { accepted := r.1.output.accepted.extract 0 limit, limit := some limit },
      some (.failed e))

theorem advance_extends (m : Machine) : m.output.Extends m.advance.1.output := by
  cases hi : m.instruction? with
  | none => simpa only [advance, hi] using Sink.Extends.refl m.output
  | some i =>
    by_cases ho : i.opcode = .write
    · cases hx : i.held m.frames 0 with
      | error e =>
        rw [advance_write_error hi ho hx]
        exact .refl _
      | ok x =>
        rw [advance_write hi ho hx]
        split
        · rw [follow_output]
          exact Sink.extends_write m.output x.display
        · exact Sink.extends_write m.output x.display
    · rw [advance_output hi ho]
      exact .refl _

theorem run_extends (m : Machine) (n : Nat) : m.output.Extends (m.run n).1.output := by
  induction n generalizing m with
  | zero => exact .refl _
  | succ n ih =>
    have he := advance_extends m
    cases ha : m.advance with
    | mk m₁ o =>
      rw [ha] at he
      cases o with
      | some o => rwa [run_of_stop ha]
      | none =>
        rw [run_of_next ha]
        exact he.trans (ih m₁)

theorem advance_run_extends (m : Machine) (n : Nat) :
    m.advance.1.output.Extends (m.run (n + 1)).1.output := by
  cases ha : m.advance with
  | mk m₁ o =>
    cases o with
    | some o =>
      rw [run_of_stop ha]
      exact .refl _
    | none =>
      rw [run_of_next ha]
      exact run_extends m₁ n

theorem Cut.extend {s : Machine × Option Outcome} (h : Cut limit m i r r')
    (hs : r.1.output.Extends s.1.output) : Cut limit m i s r' where
  overflow := h.overflow
  beyond := Nat.lt_of_lt_of_le h.beyond hs.size_le
  stopped := by
    rw [hs.extract_eq (Nat.le_of_lt h.beyond)]
    exact h.stopped

section

variable (hu : m.output.limit = none) (hm : m.output.accepted.size ≤ limit)

include hu hm

theorem advance_alongside (hn : ∀ i, ¬ m.Overflows limit i) :
    Alongside limit m.advance (m.limited limit).advance := by
  cases hi : m.instruction? with
  | none =>
    have hi' : (m.limited limit).instruction? = none := hi
    simp only [advance, hi, hi']
    exact ⟨rfl, hm⟩
  | some i =>
    have hi' : (m.limited limit).instruction? = some i := hi
    by_cases ho : i.opcode = .write
    · cases hx : i.held m.frames 0 with
      | error e =>
        rw [advance_write_error hi ho hx, advance_write_error (m := m.limited limit) hi' ho hx]
        exact ⟨rfl, hm⟩
      | ok x =>
        have hle : m.output.accepted.size + x.display.toUTF8.size ≤ limit :=
          Nat.le_of_not_lt fun hlt ↦ hn i ⟨hi, ho, x, hx, hlt⟩
        have hw : (m.limited limit).output.write x.display =
            ({ m.output with
                accepted := m.output.accepted ++ x.display.toUTF8 }.limited limit, true) :=
          Sink.write_limited_of_le hle
        rw [advance_write hi ho hx, advance_write (m := m.limited limit) hi' ho hx, hw,
          Sink.write_of_limit_none hu]
        exact ⟨rfl, ByteArray.size_append ▸ hle⟩
    · have ha := advance_redirect hi ho (m.output.limited limit)
      have hs := advance_output hi ho
      exact ⟨by rw [limited, ha, limited, hs], by rwa [hs]⟩

theorem advance_cut (h : m.Overflows limit i) :
    Cut limit m i m.advance (m.limited limit).advance := by
  obtain ⟨x, hx, hlt⟩ := h.text
  have hi' : (m.limited limit).instruction? = some i := h.instruction
  have hw : (m.limited limit).output.write x.display =
      ({ accepted := (m.output.accepted ++ x.display.toUTF8).extract 0 limit, limit := some limit },
        false) := Sink.write_limited_of_lt hm hlt
  have ha : m.advance.1.output.accepted = m.output.accepted ++ x.display.toUTF8 := by
    rw [advance_write h.instruction h.opcode hx, Sink.write_of_limit_none hu, if_pos rfl,
      follow_output]
    rfl
  refine ⟨h, ?_, .ofInstruction i .output, rfl, rfl, rfl, ?_⟩
  · rwa [ha, ByteArray.size_append]
  · rw [advance_write (m := m.limited limit) hi' h.opcode hx, hw, ha]
    rfl

/-- A run with limited output goes along with the unlimited one up to the first text that does not
fit, and stops there. -/
theorem run_alongside (n : Nat) :
    Alongside limit (m.run n) ((m.limited limit).run n) ∨
      ∃ k < n, ∃ m₁ i, m.run k = (m₁, none) ∧
        (∀ j ≤ k, Alongside limit (m.run j) ((m.limited limit).run j)) ∧
        Cut limit m₁ i (m.run n) ((m.limited limit).run n) := by
  induction n generalizing m with
  | zero => exact .inl ⟨rfl, hm⟩
  | succ n ih =>
    have h₀ : Alongside limit (m.run 0) ((m.limited limit).run 0) := ⟨rfl, hm⟩
    by_cases ho : ∃ i, m.Overflows limit i
    · obtain ⟨i, ho⟩ := ho
      have hc := advance_cut hu hm ho
      obtain ⟨e, -, -, -, hs⟩ := hc.stopped
      refine .inr ⟨0, Nat.succ_pos n, m, i, rfl, fun j hj ↦ Nat.le_zero.1 hj ▸ h₀, ?_⟩
      rw [run_of_stop hs, ← hs]
      exact hc.extend (advance_run_extends m n)
    · have hs := advance_alongside hu hm (not_exists.1 ho)
      have hl := (advance_extends m).limit_eq
      cases ha : m.advance with
      | mk m₁ o =>
        rw [ha] at hs hl
        cases o with
        | some o =>
          rw [run_of_stop ha, run_of_stop hs.eq]
          exact .inl ⟨rfl, hs.size⟩
        | none =>
          have shift {j : Nat} (h : Alongside limit (m₁.run j) ((m₁.limited limit).run j)) :
              Alongside limit (m.run (j + 1)) ((m.limited limit).run (j + 1)) := by
            rwa [run_of_next ha, run_of_next hs.eq]
          rcases ih (hl.trans hu) hs.size with h | ⟨k, hk, m₂, i, hr, hj, hc⟩
          · exact .inl (shift h)
          · refine .inr ⟨k + 1, Nat.succ_lt_succ hk, m₂, i, (run_of_next ha).trans hr, ?_, ?_⟩
            · intro j hjk
              cases j with
              | zero => exact h₀
              | succ j => exact shift (hj j (Nat.le_of_succ_le_succ hjk))
            · rwa [run_of_next ha, run_of_next hs.eq]

theorem execute_alongside (n : Nat) :
    Alongside limit (m.execute n) ((m.limited limit).execute n) ∨
      ∃ k < n, ∃ m₁ i, m.execute k = (m₁, none) ∧
        (∀ j ≤ k, Alongside limit (m.execute j) ((m.limited limit).execute j)) ∧
        Cut limit m₁ i (m.execute n) ((m.limited limit).execute n) := by
  have hl : (m.limited limit).start = m.start.map (·.limited limit) := by
    have hp : (m.limited limit).program = m.program := rfl
    simp only [start, hp]
    cases Labels.resolve m.program <;> rfl
  cases hs : m.start with
  | error e =>
    rw [hs] at hl
    rw [execute_of_start_error hs, execute_of_start_error hl]
    exact .inl ⟨rfl, hm⟩
  | ok m₁ =>
    rw [hs] at hl
    have ho : m₁.output = m.output := by
      obtain ⟨t, -, rfl⟩ := start_ok hs
      rfl
    simp only [execute_of_start hs, execute_of_start hl]
    exact run_alongside (by rwa [ho]) (by rwa [ho]) n

end

/-- Output with a limit is a first part of unlimited output. The limited run is the same, until it
comes to a `WRITE` whose text does not fit; there it stops and has written all that fits. -/
theorem bounded_output_prefix (p : Program) (input : List UInt8) (diagnostics : Sink)
    (limit n : Nat) :
    let r k := (fresh p input {} diagnostics).execute k
    let r' k := (fresh p input { limit := some limit } diagnostics).execute k
    Alongside limit (r n) (r' n) ∨
      ∃ k < n, ∃ m i, r k = (m, none) ∧ (∀ j ≤ k, Alongside limit (r j) (r' j)) ∧
        Cut limit m i (r n) (r' n) :=
  execute_alongside rfl (Nat.zero_le limit) n

end Machine

end ThreeAddress
