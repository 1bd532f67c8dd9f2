import ThreeAddress.Proofs.FailedStep
import ThreeAddress.Proofs.Sink
import ThreeAddress.Proofs.Stretch

namespace ThreeAddress

namespace Instruction

variable {i : Instruction} {m m' : Machine} {f : Fault} {flow : Flow} {code : Nat}

theorem Completes.exit_inv (h : i.Completes m flow m') (hf : flow = .exit code) :
    i.opcode = .exit ∧ m' = m ∧ ∃ x, i.held m.frames 0 = .ok x ∧ x.exitCode = .ok code := by
  cases h with
  | exit ho hx hc =>
    cases hf
    exact ⟨ho, rfl, _, hx, hc⟩
  | @jumpIf _ _ _ _ taken | @jumpIfStack _ _ _ _ _ taken =>
    cases taken <;> cases hf
  | _ => cases hf

theorem LeavesIntact.eq_self (h : i.LeavesIntact m m') (ht : i.opcode.operandsTaken = 0)
    (hw : i.opcode ≠ .write) (hd : i.opcode ≠ .dprint) : m' = m := by
  have he := h.eq
  rwa [ht, List.drop_zero, h.output hw, h.diagnostics hd] at he

/-- What is refused by a stream is refused again, and nothing more is taken in. -/
theorem printed_again {sink : Sink} {record : Sink → Machine} {x : Value}
    (hx : i.held m.frames 0 = .ok x) (hb : (sink.write x.display).2 = false) :
    i.printed m (sink.write x.display).1 record =
      .error .output (record (sink.write x.display).1) := by
  have ha := Sink.write_again hb
  rw [printed_refused hx (congrArg Prod.snd ha), ha]

theorem write_again (ho : i.opcode = .write) (hs : i.step m = .error f m') :
    i.step m' = .error f m' := by
  have hp := hs
  rw [step_write ho] at hp
  rcases of_printed_error hp with rfl | ⟨x, hx, hb, rfl, rfl⟩
  · exact hs
  · rw [step_write ho]
    exact printed_again hx hb

theorem dprint_again (ho : i.opcode = .dprint) (hs : i.step m = .error f m') :
    i.step m' = .error f m' := by
  have hp := hs
  rw [step_dprint ho] at hp
  rcases of_printed_error hp with rfl | ⟨x, hx, hb, rfl, rfl⟩
  · exact hs
  · rw [step_dprint ho]
    exact printed_again hx hb

/-- A failed instruction that takes no operands off the stack fails once more, in the same way. -/
theorem LeavesIntact.step_again (h : i.LeavesIntact m m') (ht : i.opcode.operandsTaken = 0)
    (hs : i.step m = .error f m') : i.step m' = .error f m' := by
  by_cases hw : i.opcode = .write
  · exact write_again hw hs
  · by_cases hd : i.opcode = .dprint
    · exact dprint_again hd hs
    · rwa [h.eq_self ht hw hd] at hs ⊢

end Instruction

namespace Machine

variable {text : String} {p : Program} {m₀ m m' : Machine} {i : Instruction} {o : Outcome} {k : Nat}

/-- What a stopped machine does when it is executed again. -/
inductive Repeats (m : Machine) : Outcome → Prop
  | ended : m.instruction? = none → (∀ k, m.execute (k + 1) = (m, some (.exit 0))) →
      Repeats m (.exit 0)
  | exited {i : Instruction} {code : Nat} : m.instruction? = some i → i.opcode = .exit →
      (∀ k, m.execute (k + 1) = ({ m with executed := m.executed + 1 }, some (.exit code))) →
      Repeats m (.exit code)
  | failed {i : Instruction} {e : RuntimeError} : m.instruction? = some i →
      e.order = i.order → e.opcode = i.opcode →
      (i.opcode.operandsTaken = 0 → ∀ k, m.execute (k + 1) = (m, some (.failed e))) →
      Repeats m (.failed e)

theorem instruction?_of_control (h : m'.control = m.control) :
    m'.instruction? = m.instruction? := by
  simp only [control, Prod.mk.injEq] at h
  rw [instruction?, instruction?, h.1, h.2.2.1]

theorem start_of_resolved (h : Labels.resolve m.program = .ok m.labels) : m.start = .ok m := by
  rw [start, h]
  rfl

theorem execute_of_advance (hs : m.start = .ok m) (ha : m.advance = (m', some o)) :
    m.execute (k + 1) = (m', some o) := by
  simp only [execute, hs, run, ha]

namespace Session

theorem stopped_resolved (h : Session m₀ .running m) (ha : m.advance = (m', some o)) :
    m'.start = .ok m' := by
  obtain ⟨hp, hl⟩ := advance_program_labels m
  rw [ha] at hp hl
  refine start_of_resolved ?_
  rw [hp, hl, h.program_eq]
  exact h.labels_resolved

theorem repeats (hp : Program.load text = .ok m₀.program) (h : Session m₀ .running m)
    (ha : m.advance = (m', some o)) : m'.Repeats o := by
  have hs : m'.start = .ok m' := h.stopped_resolved ha
  obtain ⟨hi, rfl, rfl⟩ | ⟨i, code, hi, hstep, rfl, rfl⟩ | ⟨i, f, hi, hstep, rfl⟩ := advance_stop ha
  · exact .ended hi fun k ↦ execute_of_advance hs ha
  · obtain ⟨ho, -, x, hx, hc⟩ := (Instruction.Completes.of_step hstep).exit_inv rfl
    have hagain : i.Completes { m with executed := m.executed + 1 } (.exit code)
        { m with executed := m.executed + 1 } := .exit ho hx hc
    have hi' : { m with executed := m.executed + 1 : Machine }.instruction? = some i := hi
    exact .exited hi' ho fun k ↦ execute_of_advance hs (advance_of_ok hi' hagain.step)
  · obtain ⟨hw, ht⟩ := h.instruction_ready hp hi
    have hl : i.LeavesIntact m m' := (Instruction.Fails.of_step hstep).leavesIntact hw ht
    have hc := i.step_control m
    rw [Effect.after_of_error hstep] at hc
    have hi' : m'.instruction? = some i := (instruction?_of_control hc).trans hi
    exact .failed hi' rfl rfl fun h₀ k ↦
      execute_of_advance hs (advance_of_error hi' (hl.step_again h₀ hstep))

end Session

/-- Once a program has been executed, executing it again repeats how it ended. At the end of the
program nothing changes at all, an exit is counted once more, and an instruction that takes no
operands off the stack fails again and changes nothing. -/
theorem stopped_machine_repeats (hp : Program.load text = .ok p) (input : List UInt8)
    (output diagnostics : Sink) :
    ∀ m m₁ m' n o, Session (fresh p input output diagnostics) .idle m → m.start = .ok m₁ →
      m.execute n = (m', some o) → m'.Repeats o := by
  intro m m₁ m' n o hm hs he
  simp only [execute, hs] at he
  obtain ⟨m₂, hm₂, ha⟩ := (hm.start hs).run_some he
  exact hm₂.repeats hp ha

def cutText : String :=
  "<program language=\"IPPcode22\">" ++
  "<instruction order=\"1\" opcode=\"WRITE\"><arg1 type=\"string\">ab</arg1></instruction>" ++
  "</program>"

def cutProgram : Program := .ofList [⟨1, .write, [.literal (.string "ab")]⟩]

theorem load_cut : Program.load cutText = .ok cutProgram := by
  have hr : Markup.Element.read cutText = .ok {
      name := "program"
      attributes := [("language", "IPPcode22")]
      children := [
        { name := "instruction"
          attributes := [("order", "1"), ("opcode", "WRITE")]
          children := [
            { name := "arg1", attributes := [("type", "string")], text := "ab" }] }] } := by
    cbv
  rw [Program.load_of_read hr]
  exact Markup.Element.toProgram_of_instructions
    (l := [⟨1, .write, [.literal (.string "ab")]⟩]) rfl (by cbv) (by cbv)

/-- The stream takes one of two bytes, and none when the program is executed again. -/
theorem stopped_machine_repeats_cut :
    Program.load cutText = .ok cutProgram ∧ ∃ m' e,
      (fresh cutProgram [] { limit := some 1 } {}).execute 1 = (m', some (.failed e)) ∧
        e.fault = .output ∧ m'.output.accepted = "a".toUTF8 ∧ m'.Repeats (.failed e) ∧
        m'.execute 1 = (m', some (.failed e)) := by
  have hs : (fresh cutProgram [] { limit := some 1 } {}).start =
      .ok (fresh cutProgram [] { limit := some 1 } {}) := by
    cbv
  have he : (fresh cutProgram [] { limit := some 1 } {}).execute 1 =
      (fresh cutProgram [] { accepted := "a".toUTF8, limit := some 1 } {},
        some (.failed ⟨.output, 1, .write⟩)) := by
    cbv
  have hr := stopped_machine_repeats load_cut [] { limit := some 1 } {} _ _ _ _ _ .fresh hs he
  refine ⟨load_cut, _, _, he, rfl, rfl, hr, ?_⟩
  cases hr with
  | failed hi _ ho hagain => exact hagain (by rw [← ho]; rfl) 0

end Machine

end ThreeAddress
