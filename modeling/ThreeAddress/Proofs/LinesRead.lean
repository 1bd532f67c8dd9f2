import ThreeAddress.Proofs.FailedStep
import ThreeAddress.Proofs.Footprint
import ThreeAddress.Proofs.Stretch
import ThreeAddress.Proofs.Text.Lines

namespace ThreeAddress

open Text

namespace ReadType

variable {t : ReadType} {type : String} {line : Option String} {x : Value}

/-- The value that a variable gets from a line. -/
def received (t : ReadType) (line : Option String) : Value := (line.bind t.read?).getD .nil

theorem ne_nil_of_read? {s : String} (h : t.read? s = some x) : x ≠ .nil := by
  rintro rfl
  cases t with
  | int | float =>
    obtain ⟨y, -, hy⟩ := Option.map_eq_some_iff.1 h
    cases hy
  | bool | string => cases h

theorem received_eq_nil :
    t.received line = .nil ↔ ∀ s, line = some s → t.read? s = none := by
  cases line with
  | none => simp [received]
  | some s =>
    cases hs : t.read? s with
    | none => simp [received, hs]
    | some x => simp [received, hs, ne_nil_of_read? hs]

theorem isSome_read? (ht : t = .string ∨ t = .bool) (s : String) : (t.read? s).isSome = true := by
  rcases ht with rfl | rfl <;> rfl

theorem ofLine_ok (h : Value.ofLine type line = .ok x) :
    ∃ t, ofName? type = some t ∧ x = t.received line := by
  rw [Value.ofLine] at h
  split at h
  · next t ht =>
    cases h
    exact ⟨t, ht, rfl⟩
  · cases h

end ReadType

namespace Machine

/-- Whether the next instruction is a `READ`. -/
def atRead (m : Machine) : Bool := m.instruction?.any fun i ↦ i.opcode == .read

/-- A `READ` puts the value of a line into its variable. -/
def Receives (m : Machine) (line : Option String) (m' : Machine) : Prop :=
  ∃ i v name t, m.instruction? = some i ∧ i.opcode = .read ∧ i.arguments[0]? = some (.var v) ∧
    i.arguments[1]? = some (.type name) ∧ ReadType.ofName? name = some t ∧
    m.frames.set v (t.received line) = .ok m'.frames ∧ m'.frames.get v = .ok (t.received line)

variable {text : String} {p : Program} {P : Machine → Prop} {m₀ m m' : Machine} {i : Instruction}
  {o : Outcome} {ms : List Machine} {phase phase' : Phase} {flow : Flow}

theorem atRead_eq (hi : m.instruction? = some i) : m.atRead = (i.opcode == .read) := by
  rw [atRead, hi, Option.any_some]

theorem follow_input (flow : Flow) : (m.follow flow).1.input = m.input := by
  cases flow <;> rfl

theorem receives_of_completes (hi : m.instruction? = some i) (ho : i.opcode = .read)
    (h : i.Completes m flow m') :
    m'.input = (takeLine m.input).2 ∧ m.Receives (takeLine m.input).1 m' := by
  cases h with
  | @read v type x fs _ hv ht hx hfs =>
    obtain ⟨t, hname, rfl⟩ := ReadType.ofLine_ok hx
    have hv₀ := (Instruction.varAt_of_place hv).1
    refine ⟨rfl, i, v, type, t, hi, ho, ?_, ?_, hname, hfs, ?_⟩
    · rw [Instruction.varAt] at hv₀
      split at hv₀
      · next hw =>
        cases hv₀
        exact hw
      · cases hv₀
    · rw [Instruction.readType] at ht
      split at ht
      · next hn =>
        cases ht
        exact hn
      · cases ht
    · exact Frames.get_ok.2 (Frames.find?_of_set hfs)
  | reframe hF => simp only [Instruction.reframe?, ho, reduceCtorEq] at hF
  | call h | ret h | pushs h | pops h | clears h | write h | label h | jump h | jumpIf h | exit h
  | dprint h | breakpoint h | binaryStack h | unaryStack h | jumpIfStack h => cases ho.symm.trans h

theorem advance_receives (hr : m.atRead = true) (h : m.advance = (m', none)) :
    m'.input = (takeLine m.input).2 ∧ m.Receives (takeLine m.input).1 m' := by
  obtain ⟨i, flow, m₁, hi, hc, hf⟩ := advance_next h
  rw [atRead_eq hi, beq_iff_eq] at hr
  obtain ⟨hin, hrec⟩ := receives_of_completes hi hr hc
  have hfs := follow_frames (m := m₁) flow
  have hfi := follow_input (m := m₁) flow
  rw [hf] at hfs hfi
  rw [Receives, hfi, hfs]
  exact ⟨hin, hrec⟩

theorem advance_input (hr : m.atRead = false) (h : m.advance = (m', none)) :
    m'.input = m.input := by
  obtain ⟨i, flow, m₁, hi, hc, hf⟩ := advance_next h
  rw [atRead_eq hi, beq_eq_false_iff_ne] at hr
  have hfp := hc.footprint.follow flow
  rw [hf] at hfp
  exact hfp.input hr

namespace Session

/-- Where a run of a loaded program ends, no line is lost. -/
theorem stop_input (hp : Program.load text = .ok m₀.program) (h : Session m₀ .running m)
    (ha : m.advance = (m', some o)) : m'.input = m.input := by
  obtain ⟨-, rfl, -⟩ | ⟨i, code, -, -, rfl, -⟩ | ⟨i, f, hi, hs, -⟩ := advance_stop ha
  · rfl
  · rfl
  · obtain ⟨hw, ht⟩ := h.instruction_ready hp hi
    rw [((Instruction.Fails.of_step hs).leavesIntact hw ht).eq]

/-- Along a stretch of a session the lines are taken one by one. -/
theorem lines (hp : Program.load text = .ok m₀.program) (hm : Session m₀ phase m)
    (h : Stretch P phase m ms phase' m') :
    m'.input = dropLines (ms.countP atRead) m.input ∧
      ∀ k (n : Machine), (ms.filter atRead)[k]? = some n →
        ∃ n', n.advance = (n', none) ∧ n.Receives (lineAt k m.input) n' := by
  induction h with
  | refl => exact ⟨rfl, fun k n hk ↦ by simp at hk⟩
  | start _ hs _ ih =>
    obtain ⟨t, -, rfl⟩ := start_ok hs
    exact ih (hm.start hs)
  | stop _ ha _ ih =>
    have hin := ih (hm.stop ha)
    rw [hm.stop_input hp ha] at hin
    exact hin
  | @next m m₁ m' ms phase _ ha _ ih =>
    obtain ⟨hin, hrec⟩ := ih (hm.next ha)
    cases hr : m.atRead with
    | false =>
      rw [advance_input hr ha] at hin hrec
      rw [List.countP_cons_of_neg (by simp [hr]), List.filter_cons_of_neg (by simp [hr])]
      exact ⟨hin, hrec⟩
    | true =>
      obtain ⟨hin₁, hrec₁⟩ := advance_receives hr ha
      rw [hin₁] at hin hrec
      rw [List.countP_cons_of_pos hr, List.filter_cons_of_pos hr]
      refine ⟨hin, fun k n hk ↦ ?_⟩
      cases k with
      | zero =>
        cases hk
        exact ⟨m₁, ha, hrec₁⟩
      | succ k => exact hrec k n hk

end Session

/-- The `READ` instructions that complete get the lines of the input one after the other, whatever
they ask for and over any number of executions. Nothing else takes a line, and what is stored is
`nil` exactly if the line is missing or is not of the type asked for. -/
theorem read_line_by_line (hp : Program.load text = .ok p) (input : List UInt8)
    (output diagnostics : Sink) :
    (∀ ms phase m,
      Stretch (fun _ ↦ True) .idle (fresh p input output diagnostics) ms phase m →
      m.input = dropLines (ms.countP atRead) input ∧
        ∀ k (n : Machine), (ms.filter atRead)[k]? = some n →
          ∃ n', n.advance = (n', none) ∧ n.Receives (lineAt k input) n') ∧
    (∀ m m' o, Session (fresh p input output diagnostics) .running m → m.advance = (m', o) →
      (m.atRead = true → o ≠ none) → m'.input = m.input) ∧
    ∀ (t : ReadType) (line : Option String),
      (t.received line = .nil ↔ ∀ s, line = some s → t.read? s = none) ∧
        (t = .string ∨ t = .bool → ∀ s, (t.read? s).isSome = true) := by
  refine ⟨fun ms phase m h ↦ Session.fresh.lines hp h, ?_,
    fun t line ↦ ⟨ReadType.received_eq_nil, ReadType.isSome_read?⟩⟩
  intro m m' o hm ha hr
  cases o with
  | some o => exact hm.stop_input hp ha
  | none =>
    cases hm' : m.atRead with
    | true => exact absurd rfl (hr hm')
    | false => exact advance_input hm' ha

def linesText : String := .join [
  "<program language=\"IPPcode22\">",
  "<instruction order=\"1\" opcode=\"DEFVAR\">", "<arg1 type=\"var\">GF@x</arg1></instruction>",
  "<instruction order=\"2\" opcode=\"READ\">", "<arg1 type=\"var\">GF@x</arg1>",
  "<arg2 type=\"type\">int</arg2></instruction>",
  "<instruction order=\"3\" opcode=\"READ\">", "<arg1 type=\"var\">GF@x</arg1>",
  "<arg2 type=\"type\">int</arg2></instruction></program>"]

def linesProgram : Program :=
  .ofList [⟨1, .defVar, [.var ⟨.gf, "x"⟩]⟩, ⟨2, .read, [.var ⟨.gf, "x"⟩, .type "int"]⟩,
    ⟨3, .read, [.var ⟨.gf, "x"⟩, .type "int"]⟩]

theorem load_lines : Program.load linesText = .ok linesProgram := by
  have hr : Markup.Element.read linesText = .ok {
      name := "program"
      attributes := [("language", "IPPcode22")]
      children := [
        { name := "instruction"
          attributes := [("order", "1"), ("opcode", "DEFVAR")]
          children := [{ name := "arg1", attributes := [("type", "var")], text := "GF@x" }] },
        { name := "instruction"
          attributes := [("order", "2"), ("opcode", "READ")]
          children := [
            { name := "arg1", attributes := [("type", "var")], text := "GF@x" },
            { name := "arg2", attributes := [("type", "type")], text := "int" }] },
        { name := "instruction"
          attributes := [("order", "3"), ("opcode", "READ")]
          children := [
            { name := "arg1", attributes := [("type", "var")], text := "GF@x" },
            { name := "arg2", attributes := [("type", "type")], text := "int" }] }] } := by
    refine (Markup.Element.read_join _).trans ?_
    cbv
  rw [Program.load_of_read hr]
  exact Markup.Element.toProgram_of_instructions
    (l := [⟨3, .read, [.var ⟨.gf, "x"⟩, .type "int"]⟩, ⟨2, .read, [.var ⟨.gf, "x"⟩, .type "int"]⟩,
      ⟨1, .defVar, [.var ⟨.gf, "x"⟩]⟩]) rfl (by cbv) (by cbv)

/-- A line that is no number and one that is, and ends with a carriage return. -/
def twoLines : List UInt8 := [97, 10, 55, 13, 10]

def awaiting (pc : Nat) (x : Value) (input : List UInt8) : Machine :=
  { fresh linesProgram input {} {} with
    frames := { globals := ⟨[("x", x)]⟩ }
    pc, executed := pc }

/-- The line that is no number is gone when the next one is asked for. -/
theorem read_line_by_line_two :
    Program.load linesText = .ok linesProgram ∧
      Stretch (fun _ ↦ True) .idle (fresh linesProgram twoLines {} {})
        [fresh linesProgram twoLines {} {}, awaiting 1 .undefined twoLines,
          awaiting 2 .nil [55, 13, 10]] .running (awaiting 3 (.int 7) []) ∧
      lineAt 0 twoLines = some "a" ∧ lineAt 1 twoLines = some "7" ∧
      ∃ n', (awaiting 2 .nil [55, 13, 10]).advance = (n', none) ∧
        (awaiting 2 .nil [55, 13, 10]).Receives (lineAt 1 twoLines) n' := by
  have h : Stretch (fun _ ↦ True) .idle (fresh linesProgram twoLines {} {})
      [fresh linesProgram twoLines {} {}, awaiting 1 .undefined twoLines,
        awaiting 2 .nil [55, 13, 10]] .running (awaiting 3 (.int 7) []) :=
    .start trivial (by cbv) (.next trivial (by cbv) (.next trivial (by cbv)
      (.next trivial (by cbv) (.refl trivial))))
  refine ⟨load_lines, h, by cbv, by cbv, ?_⟩
  exact ((read_line_by_line load_lines twoLines {} {}).1 _ _ _ h).2 1 _ (by cbv)

end Machine

end ThreeAddress
