import ThreeAddress.Proofs.Changes
import ThreeAddress.Proofs.Text.Lines

namespace ThreeAddress

namespace Opcode

/-- Whether an instruction assigns a value to the variable in its first slot. -/
def assigns : Opcode → Bool
  | move | binary _ | unary _ | concat | strlen | getChar | setChar | type | read | pops => true
  | _ => false

/-- Whether an instruction changes which frames there are, or which variables in them. -/
def reshapes : Opcode → Bool
  | createFrame | pushFrame | popFrame | defVar => true
  | _ => false

def usesOperands : Opcode → Bool
  | pushs | pops | clears | binaryStack _ | unaryStack _ | jumpIfStack _ => true
  | _ => false

/-- How many entries of the operand stack an instruction takes off, if it does not clear it. -/
def operandsConsumed : Opcode → Nat
  | pops => 1
  | o => o.operandsTaken

/-- How many entries an instruction puts on the operand stack. -/
def operandsProduced : Opcode → Nat
  | pushs | binaryStack _ | unaryStack _ => 1
  | _ => 0

theorem of_usesOperands {o : Opcode} (h : o.usesOperands = false) :
    o.operandsConsumed = 0 ∧ o.operandsProduced = 0 ∧ o ≠ clears := by
  cases o with
  | pushs | pops | clears | binaryStack | unaryStack | jumpIfStack => cases h
  | _ => exact ⟨rfl, rfl, Opcode.noConfusion⟩

end Opcode

/-- Where a frame can be; the stack of frames is counted from its top. -/
inductive FramePlace
  | globals
  | stacked (k : Nat)
  | temporary
  deriving DecidableEq

def FrameKind.place : FrameKind → FramePlace
  | gf => .globals
  | lf => .stacked 0
  | tf => .temporary

namespace Frames

def at? (fs : Frames) : FramePlace → Option Frame
  | .globals => some fs.globals
  | .stacked k => fs.locals[k]?
  | .temporary => fs.temporary

/-- The names of the variables in a frame, if the frame exists. -/
def namesAt (fs : Frames) (p : FramePlace) : Option (List String) := (fs.at? p).map Frame.names

def valueAt (fs : Frames) (p : FramePlace) (name : String) : Option Value :=
  (fs.at? p).bind (·.get? name)

variable {fs : Frames} {f g : Frame} {kind : FrameKind} {p : FramePlace}

theorem at?_place (fs : Frames) (kind : FrameKind) : fs.at? kind.place = fs.frame? kind := by
  cases kind with
  | gf | tf => rfl
  | lf => exact List.head?_eq_getElem?.symm

theorem at?_replace (hf : fs.frame? kind = some f) (g : Frame) (p : FramePlace) :
    (fs.replace g kind).at? p = if p = kind.place then some g else fs.at? p := by
  cases kind with
  | gf => cases p <;> rfl
  | tf => cases p <;> rfl
  | lf =>
    obtain ⟨l, hl⟩ := List.head?_eq_some_iff.1 hf
    cases p with
    | globals | temporary => rfl
    | stacked k =>
      simp only [replace, at?, hl, List.tail_cons, FrameKind.place, FramePlace.stacked.injEq]
      cases k with
      | zero => rfl
      | succ k => rfl

end Frames

/-- What a completed instruction can have changed of a machine. -/
structure Instruction.Footprint (i : Instruction) (m m' : Machine) : Prop where
  program : m'.program = m.program
  labels : m'.labels = m.labels
  names : i.opcode.reshapes = false → ∀ p, m'.frames.namesAt p = m.frames.namesAt p
  values : i.opcode.reshapes = false → ∀ p name,
    m'.frames.valueAt p name ≠ m.frames.valueAt p name →
      i.opcode.assigns = true ∧
        ∃ kind, i.arguments[0]? = some (.var ⟨kind, name⟩) ∧ p = kind.place
  operands : i.opcode.usesOperands = false → m'.operands = m.operands
  below : i.opcode ≠ .clears → ∃ top,
    m'.operands = top ++ m.operands.drop i.opcode.operandsConsumed ∧
      top.length = i.opcode.operandsProduced ∧ i.opcode.operandsConsumed ≤ m.operands.length
  calls : i.opcode ≠ .call → i.opcode ≠ .ret → m'.calls = m.calls
  input : i.opcode ≠ .read → m'.input = m.input
  consumed : m'.input <:+ m.input
  output : i.opcode ≠ .write → m'.output = m.output
  written : ∃ bytes, m'.output = { m.output with accepted := m.output.accepted ++ bytes }
  diagnostics : i.opcode ≠ .dprint → i.opcode ≠ .breakpoint → m'.diagnostics = m.diagnostics
  reported : ∃ bytes,
    m'.diagnostics = { m.diagnostics with accepted := m.diagnostics.accepted ++ bytes }

namespace Instruction

variable {i : Instruction} {fs fs' : Frames} {m m' : Machine} {flow : Flow}

theorem assigns_of_signature (hs : i.opcode.signature.head? = some .var) (hd : i.opcode ≠ .defVar) :
    i.opcode.assigns = true := by
  cases ho : i.opcode <;> simp_all [Opcode.signature, Opcode.assigns]

theorem arrange_eq_self (h : i.opcode.reshapes = false) (fs : Frames) :
    i.opcode.arrange fs = fs := by
  cases ho : i.opcode with
  | createFrame | pushFrame | popFrame =>
    rw [ho] at h
    cases h
  | _ => rfl

theorem written?_eq_some {v : VarRef} (h : i.written? = some v) :
    i.opcode.signature.head? = some .var ∧ i.arguments[0]? = some (.var v) := by
  simp only [written?] at h
  split at h
  · next hs ha =>
    cases h
    exact ⟨hs, ha⟩
  · cases h

theorem Alters.unchanged_or_assigned (h : i.Alters fs fs') (hr : i.opcode.reshapes = false) :
    fs' = fs ∨ ∃ v f x, i.opcode.assigns = true ∧ i.arguments[0]? = some (.var v) ∧
      fs.frame? v.frame = some f ∧ fs' = fs.replace (f.set v.name x) v.frame := by
  cases h with
  | arranged _ ha => exact .inl (ha.trans (arrange_eq_self hr fs))
  | changed hc hf he =>
    have hd : i.opcode ≠ .defVar := by
      intro hd
      rw [hd] at hr
      cases hr
    obtain ⟨v, hv, hc⟩ := Option.bind_eq_some_iff.1 hc
    rw [if_neg hd] at hc
    obtain ⟨x, -, hx⟩ := Option.map_eq_some_iff.1 hc
    cases hx
    obtain ⟨hs, ha⟩ := written?_eq_some hv
    exact .inr ⟨v, _, x, assigns_of_signature hs hd, ha, hf, he⟩

theorem Alters.namesAt (h : i.Alters fs fs') (hr : i.opcode.reshapes = false) (p : FramePlace) :
    fs'.namesAt p = fs.namesAt p := by
  obtain rfl | ⟨v, f, x, -, -, hf, rfl⟩ := h.unchanged_or_assigned hr
  · rfl
  · rw [Frames.namesAt, Frames.namesAt, Frames.at?_replace hf]
    split
    · next hp => rw [hp, Frames.at?_place, hf, Option.map_some, Option.map_some, Frame.names_set]
    · rfl

/-- An assignment reaches one frame, and one variable in it. -/
theorem Alters.valueAt (h : i.Alters fs fs') (hr : i.opcode.reshapes = false) {p : FramePlace}
    {name : String} (hv : fs'.valueAt p name ≠ fs.valueAt p name) :
    i.opcode.assigns = true ∧
      ∃ kind, i.arguments[0]? = some (.var ⟨kind, name⟩) ∧ p = kind.place := by
  obtain rfl | ⟨v, f, x, ho, ha, hf, rfl⟩ := h.unchanged_or_assigned hr
  · exact absurd rfl hv
  · rw [Frames.valueAt, Frames.valueAt, Frames.at?_replace hf] at hv
    split at hv
    · next hp =>
      rw [hp, Frames.at?_place, hf, Option.bind_some, Option.bind_some, Frame.get?_set] at hv
      by_cases hn : name = v.name
      · exact ⟨ho, v.frame, hn ▸ ha, hp⟩
      · simp [hn] at hv
    · exact absurd rfl hv

theorem usesOperands_of_reframe? {F : Frames → Except Fault Frames} (hF : i.reframe? = some F) :
    i.opcode.usesOperands = false := by
  cases ho : i.opcode <;> simp only [reframe?, ho, reduceCtorEq] at hF <;> rfl

theorem Completes.below (h : i.Completes m flow m') (hc : i.opcode ≠ .clears) :
    ∃ top, m'.operands = top ++ m.operands.drop i.opcode.operandsConsumed ∧
      top.length = i.opcode.operandsProduced ∧
      i.opcode.operandsConsumed ≤ m.operands.length := by
  cases h with
  | reframe hF =>
    obtain ⟨hn, hp, -⟩ := Opcode.of_usesOperands (usesOperands_of_reframe? hF)
    rw [hn, hp]
    exact ⟨[], rfl, rfl, Nat.zero_le _⟩
  | clears ho => exact absurd ho hc
  | pushs ho =>
    rw [ho]
    exact ⟨[_], rfl, rfl, Nat.zero_le _⟩
  | pops ho _ hr | jumpIfStack ho _ hr =>
    rw [ho, hr]
    exact ⟨[], rfl, rfl, Nat.le_add_left _ _⟩
  | unaryStack ho hr | binaryStack ho hr =>
    rw [ho, hr]
    exact ⟨[_], rfl, rfl, Nat.le_add_left _ _⟩
  | call ho | ret ho | read ho | write ho | label ho | jump ho | jumpIf ho | exit ho
  | dprint ho | breakpoint ho =>
    rw [ho]
    exact ⟨[], rfl, rfl, Nat.zero_le _⟩

theorem Completes.footprint (h : i.Completes m flow m') : i.Footprint m m' where
  program := by cases h <;> rfl
  labels := by cases h <;> rfl
  names := h.alters.namesAt
  values hr _ _ := h.alters.valueAt hr
  operands hu := by
    obtain ⟨hn, hp, hc⟩ := Opcode.of_usesOperands hu
    obtain ⟨top, hm, ht, -⟩ := h.below hc
    rw [hp, List.length_eq_zero_iff] at ht
    rw [hm, hn, ht, List.nil_append, List.drop_zero]
  below := h.below
  calls := by
    intro hc hr
    cases h with
    | call ho => exact absurd ho hc
    | ret ho => exact absurd ho hr
    | _ => rfl
  input := by
    intro hn
    cases h with
    | read ho => exact absurd ho hn
    | _ => rfl
  consumed := by
    cases h with
    | read => exact Text.takeLine_suffix m.input
    | _ => exact List.suffix_rfl
  output := by
    intro hn
    cases h with
    | write ho => exact absurd ho hn
    | _ => rfl
  written := by
    cases h with
    | write => exact ⟨_, rfl⟩
    | _ => exact ⟨.empty, by simp⟩
  diagnostics := by
    intro hd hb
    cases h with
    | dprint ho => exact absurd ho hd
    | breakpoint ho => exact absurd ho hb
    | _ => rfl
  reported := by
    cases h with
    | dprint | breakpoint => exact ⟨_, rfl⟩
    | _ => exact ⟨.empty, by simp⟩

theorem Footprint.follow (h : i.Footprint m m') (flow : Flow) :
    i.Footprint m (m'.follow flow).1 := by
  cases flow with
  | next | jump | exit => exact { h with }

/-- Each part of a machine is changed by those instructions only that are about it; of the
variables, at most the destination is, and of the operand stack, at most what is taken off it. -/
theorem step_footprint (h : i.step m = .ok flow m') :
    i.Footprint m m' ∧ i.Footprint m (m'.follow flow).1 :=
  ⟨(step_ok.1 h).footprint, (step_ok.1 h).footprint.follow flow⟩

def adding : Instruction :=
  ⟨1, .binary .add, [.var ⟨.lf, "x"⟩, .var ⟨.lf, "x"⟩, .var ⟨.tf, "x"⟩]⟩

/-- A machine with a variable of the same name in every frame. -/
def namesakes : Machine where
  program := .empty
  frames := {
    globals := ⟨[("x", .int 1)]⟩
    locals := [⟨[("x", .int 2), ("y", .nil)]⟩, ⟨[("x", .int 3)]⟩]
    temporary := some ⟨[("x", .int 4)]⟩ }

theorem step_footprint_namesakes :
    ∃ m', adding.step namesakes = .ok .next m' ∧ adding.Footprint namesakes m' ∧
      m'.frames.valueAt (.stacked 0) "x" = some (.int 6) ∧
      m'.frames.valueAt .temporary "x" = some (.int 4) := by
  have hs : adding.step namesakes = .ok .next { namesakes with
      frames.locals := [⟨[("x", .int 6), ("y", .nil)]⟩, ⟨[("x", .int 3)]⟩] } := by
    cbv
  exact ⟨_, hs, (step_footprint hs).1, rfl, rfl⟩

end Instruction

end ThreeAddress
