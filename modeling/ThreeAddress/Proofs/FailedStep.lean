import ThreeAddress.Proofs.StaticFaults
import ThreeAddress.Proofs.Transitions

namespace ThreeAddress

/-- Nothing has changed but what was taken off the operand stack, and what a stream took in before
it refused the rest. -/
structure Instruction.LeavesIntact (i : Instruction) (m m' : Machine) : Prop where
  eq : m' = { m with
    operands := m.operands.drop i.opcode.operandsTaken
    output := m'.output
    diagnostics := m'.diagnostics }
  output : i.opcode ≠ .write → m'.output = m.output
  diagnostics : i.opcode ≠ .dprint → m'.diagnostics = m.diagnostics

namespace Instruction

variable {i : Instruction} {m m' : Machine} {f : Fault}

theorem LeavesIntact.of_streams {output diagnostics : Sink} (ht : i.opcode.operandsTaken = 0)
    (ho : i.opcode ≠ .write → output = m.output)
    (hd : i.opcode ≠ .dprint → diagnostics = m.diagnostics) :
    i.LeavesIntact m { m with output, diagnostics } where
  eq := by rw [ht, List.drop_zero]
  output := ho
  diagnostics := hd

/-- In a loaded program the types of `READ` are known and the labels resolve, so that no line is
read in vain, and a conditional jump comes to its operands. -/
theorem Fails.leavesIntact (hi : i.WellFormed) (ht : m.labels.unresolved? i = none)
    (h : i.Fails m f m') : i.LeavesIntact m m' := by
  cases h with
  | unresolved ho hn =>
    obtain ⟨n, hn'⟩ := hi.goal_ok ho ht
    rw [hn'] at hn
    cases hn
  | taken => exact ⟨rfl, fun _ ↦ rfl, fun _ ↦ rfl⟩
  | read ho ht hn =>
    obtain ⟨name, type, ha, hname⟩ := hi.type_slot (k := 1) (by rw [ho]; rfl)
    simp only [readType, ha, Except.ok.injEq] at ht
    rw [ht, hn] at hname
    cases hname
  | write ho => exact .of_streams (by rw [ho]; rfl) (fun h ↦ absurd ho h) fun _ ↦ rfl
  | dprint ho => exact .of_streams (by rw [ho]; rfl) (fun _ ↦ rfl) fun h ↦ absurd ho h

end Instruction

namespace Machine

variable {text : String} {p : Program}

/-- A failing instruction of a loaded program is named by the error. It takes from the operand stack
what a stack form takes, as far as there is something to take, and changes nothing else. -/
theorem failed_step_intact (hp : Program.load text = .ok p) (input : List UInt8)
    (output diagnostics : Sink) :
    ∀ m m' e, Session (fresh p input output diagnostics) .running m →
      m.advance = (m', some (.failed e)) →
      ∃ i, m.instruction? = some i ∧ e.order = i.order ∧ e.opcode = i.opcode ∧
        i.LeavesIntact m m' := by
  intro m m' e hm ha
  obtain ⟨i, hi, hs, he⟩ := advance_failed ha
  obtain ⟨hw, ht⟩ := hm.instruction_ready hp hi
  have ho : e.order = i.order ∧ e.opcode = i.opcode := by
    rw [he]
    exact ⟨rfl, rfl⟩
  exact ⟨i, hi, ho.1, ho.2, (Instruction.Fails.of_step hs).leavesIntact hw ht⟩

def shortageText : String :=
  "<program language=\"IPPcode22\">" ++
  "<instruction order=\"1\" opcode=\"PUSHS\"><arg1 type=\"int\">1</arg1></instruction>" ++
  "<instruction order=\"2\" opcode=\"ADDS\"/></program>"

def shortageProgram : Program :=
  .ofList [⟨1, .pushs, [.literal (.int 1)]⟩, ⟨2, .binaryStack .add, []⟩]

theorem load_shortage : Program.load shortageText = .ok shortageProgram := by
  have hr : Markup.Element.read shortageText = .ok {
      name := "program"
      attributes := [("language", "IPPcode22")]
      children := [
        { name := "instruction"
          attributes := [("order", "1"), ("opcode", "PUSHS")]
          children := [{ name := "arg1", attributes := [("type", "int")], text := "1" }] },
        { name := "instruction"
          attributes := [("order", "2"), ("opcode", "ADDS")] }] } := by
    cbv
  rw [Program.load_of_read hr]
  exact Markup.Element.toProgram_of_instructions
    (l := [⟨2, .binaryStack .add, []⟩, ⟨1, .pushs, [.literal (.int 1)]⟩]) rfl (by cbv) (by cbv)

/-- An addition that finds one operand takes it. -/
theorem failed_step_intact_shortage :
    Program.load shortageText = .ok shortageProgram ∧ ∃ m m' e,
      Session (fresh shortageProgram [] {} {}) .running m ∧
        m.advance = (m', some (.failed e)) ∧ m.operands = [.int 1] ∧ m'.operands = [] ∧
        ∃ i, m.instruction? = some i ∧ e.order = i.order ∧ e.opcode = i.opcode ∧
          i.LeavesIntact m m' := by
  have hm : Session (fresh shortageProgram [] {} {}) .running
      { fresh shortageProgram [] {} {} with operands := [.int 1], pc := 1, executed := 1 } :=
    .next (.start .fresh (by cbv)) (by cbv)
  have ha : advance { fresh shortageProgram [] {} {} with
      operands := [.int 1], pc := 1, executed := 1 } =
      ({ fresh shortageProgram [] {} {} with pc := 1, executed := 1 },
        some (.failed ⟨.emptyOperandStack, 2, .binaryStack .add⟩)) := by
    cbv
  exact ⟨load_shortage, _, _, _, hm, ha, rfl, rfl,
    failed_step_intact load_shortage [] {} {} _ _ _ hm ha⟩

end Machine

end ThreeAddress
