import ThreeAddress.Proofs.Except
import ThreeAddress.Proofs.Frames
import ThreeAddress.Proofs.Step

namespace ThreeAddress

open Effect

/-- How many operands a stack form takes off the stack. -/
def Opcode.operandsTaken : Opcode → Nat
  | .binaryStack _ | .jumpIfStack _ => 2
  | .unaryStack _ => 1
  | _ => 0

theorem Value.ofLine_error {type : String} {line : Option String} {f : Fault}
    (h : Value.ofLine type line = .error f) :
    ReadType.ofName? type = none ∧ f = .unsupportedReadType type := by
  simp only [ofLine] at h
  split at h
  · cases h
  · next hn =>
    cases h
    exact ⟨hn, rfl⟩

namespace Instruction

/-- The value in a slot, if it is there. -/
def held (i : Instruction) (fs : Frames) (k : Nat) : Except Fault Value :=
  i.operand fs k >>= Value.present

/-- What an instruction does when it completes. -/
inductive Completes (i : Instruction) (m : Machine) : Flow → Machine → Prop
  | reframe {F : Frames → Except Fault Frames} {fs : Frames} :
      i.reframe? = some F → F m.frames = .ok fs → Completes i m .next { m with frames := fs }
  | call {n : Nat} : i.opcode = .call → i.goal m.labels = .ok n →
      Completes i m (.jump n) { m with calls := m.pc :: m.calls }
  | ret {n : Nat} {r : List Nat} : i.opcode = .ret → m.calls = n :: r →
      Completes i m (.jump (n + 1)) { m with calls := r }
  | pushs {x : Value} : i.opcode = .pushs → i.held m.frames 0 = .ok x →
      Completes i m .next { m with operands := x :: m.operands }
  | pops {v : VarRef} {x : Value} {r : List Value} {fs : Frames} :
      i.opcode = .pops → i.place m.frames 0 = .ok v → m.operands = x :: r →
      m.frames.set v x = .ok fs → Completes i m .next { m with operands := r, frames := fs }
  | clears : i.opcode = .clears → Completes i m .next { m with operands := [] }
  | read {v : VarRef} {type : String} {x : Value} {fs : Frames} :
      i.opcode = .read → i.place m.frames 0 = .ok v → i.readType 1 = .ok type →
      Value.ofLine type (Text.takeLine m.input).1 = .ok x → m.frames.set v x = .ok fs →
      Completes i m .next { m with input := (Text.takeLine m.input).2, frames := fs }
  | write {x : Value} : i.opcode = .write → i.held m.frames 0 = .ok x →
      (m.output.write x.display).2 = true →
      Completes i m .next { m with output := (m.output.write x.display).1 }
  | label : i.opcode = .label → Completes i m .next m
  | jump {n : Nat} : i.opcode = .jump → i.goal m.labels = .ok n → Completes i m (.jump n) m
  | jumpIf {c : Condition} {n : Nat} {a b : Value} {taken : Bool} :
      i.opcode = .jumpIf c → i.goal m.labels = .ok n → i.held m.frames 1 = .ok a →
      i.held m.frames 2 = .ok b → c.holds a b = .ok taken →
      Completes i m (if taken then .jump n else .next) m
  | exit {x : Value} {code : Nat} : i.opcode = .exit → i.held m.frames 0 = .ok x →
      x.exitCode = .ok code → Completes i m (.exit code) m
  | dprint {x : Value} : i.opcode = .dprint → i.held m.frames 0 = .ok x →
      (m.diagnostics.write x.display).2 = true →
      Completes i m .next { m with diagnostics := (m.diagnostics.write x.display).1 }
  | breakpoint : i.opcode = .breakpoint →
      Completes i m .next { m with diagnostics := (m.diagnostics.write m.report).1 }
  | binaryStack {op : BinaryOp} {a b x : Value} {r : List Value} :
      i.opcode = .binaryStack op → m.operands = b :: a :: r → op.apply a b = .ok x →
      Completes i m .next { m with operands := x :: r }
  | unaryStack {op : UnaryOp} {a x : Value} {r : List Value} :
      i.opcode = .unaryStack op → m.operands = a :: r → op.apply a = .ok x →
      Completes i m .next { m with operands := x :: r }
  | jumpIfStack {c : Condition} {n : Nat} {a b : Value} {r : List Value} {taken : Bool} :
      i.opcode = .jumpIfStack c → i.goal m.labels = .ok n → m.operands = b :: a :: r →
      c.holds a b = .ok taken →
      Completes i m (if taken then .jump n else .next) { m with operands := r }

/-- What an instruction leaves behind when it fails. -/
inductive Fails (i : Instruction) (m : Machine) : Fault → Machine → Prop
  | unresolved {f : Fault} : i.opcode.referencesLabel = true → i.goal m.labels = .error f →
      Fails i m f m
  | taken {f : Fault} :
      Fails i m f { m with operands := m.operands.drop i.opcode.operandsTaken }
  | read {type : String} : i.opcode = .read → i.readType 1 = .ok type →
      ReadType.ofName? type = none →
      Fails i m (.unsupportedReadType type) { m with input := (Text.takeLine m.input).2 }
  | write {x : Value} : i.opcode = .write → i.held m.frames 0 = .ok x →
      (m.output.write x.display).2 = false →
      Fails i m .output { m with output := (m.output.write x.display).1 }
  | dprint {x : Value} : i.opcode = .dprint → i.held m.frames 0 = .ok x →
      (m.diagnostics.write x.display).2 = false →
      Fails i m .output { m with diagnostics := (m.diagnostics.write x.display).1 }

variable {i : Instruction} {m m' : Machine} {f : Fault} {flow : Flow} {k n : Nat}

theorem definedSymbol_ok {x : Value} :
    i.definedSymbol k m = .ok x m' ↔ i.held m.frames k = .ok x ∧ m' = m := by
  rw [definedSymbol_eq, reading, consult_ok, held]

theorem definedSymbol_error :
    i.definedSymbol k m = .error f m' ↔ i.held m.frames k = .error f ∧ m' = m := by
  rw [definedSymbol_eq, reading, consult_error, held]

theorem destination_ok {v : VarRef} :
    i.destination k m = .ok v m' ↔ i.place m.frames k = .ok v ∧ m' = m := by
  rw [destination_eq, reading, consult_ok]

theorem destination_error :
    i.destination k m = .error f m' ↔ i.place m.frames k = .error f ∧ m' = m := by
  rw [destination_eq, reading, consult_error]

theorem typeName_ok {type : String} :
    i.typeName k m = .ok type m' ↔ i.readType k = .ok type ∧ m' = m := by
  rw [typeName_eq, reading, consult_ok]

theorem typeName_error :
    i.typeName k m = .error f m' ↔ i.readType k = .error f ∧ m' = m := by
  rw [typeName_eq, reading, consult_error]

theorem target_ok : i.target m = .ok n m' ↔ i.goal m.labels = .ok n ∧ m' = m := by
  rw [target_eq, consult_ok]

theorem target_error : i.target m = .error f m' ↔ i.goal m.labels = .error f ∧ m' = m := by
  rw [target_eq, consult_error]

theorem branch_eq_ok {c : Condition} {a b : Value} :
    branch c n a b m = .ok flow m' ↔
      ∃ taken, c.holds a b = .ok taken ∧ (if taken then .jump n else .next) = flow ∧ m' = m := by
  simp only [branch, bind_ok, attempt_eq_ok, pure_apply, EStateM.Result.ok.injEq]
  constructor
  · rintro ⟨taken, _, ⟨ht, rfl⟩, rfl, rfl⟩
    exact ⟨taken, ht, rfl, rfl⟩
  · rintro ⟨taken, ht, rfl, rfl⟩
    exact ⟨taken, _, ⟨ht, rfl⟩, rfl, rfl⟩

theorem branch_eq_error {c : Condition} {a b : Value} :
    branch c n a b m = .error f m' ↔ c.holds a b = .error f ∧ m' = m := by
  simp only [branch, bind_error, attempt_eq_error, pure_apply, reduceCtorEq, and_false,
    exists_false, or_false]

theorem Completes.of_step (h : i.step m = .ok flow m') : i.Completes m flow m' := by
  cases hF : i.reframe? with
  | some F =>
    rw [step_of_reframe? hF] at h
    obtain ⟨_, _, hc, h⟩ := bind_ok.1 h
    obtain ⟨fs, hfs, rfl⟩ := changeFrames_ok.1 hc
    cases h
    exact .reframe hF hfs
  | none =>
    -- Only the instructions that work on more than the frames remain.
    cases ho : i.opcode <;> simp only [reframe?, ho, reduceCtorEq] at hF <;>
      simp only [step, ho, applyRead, assign, bind_ok, target_ok, definedSymbol_ok, destination_ok,
        typeName_ok, popCall_ok, pop_ok, changeFrames_ok, attempt_eq_ok, require_ok, branch_eq_ok,
        get_apply, pure_apply, push_apply, pushCall_apply, clear_apply, readLine_apply,
        printOutput_apply, printDiagnostics_apply, EStateM.Result.ok.injEq] at h
    case call =>
      obtain ⟨n, _, ⟨hn, rfl⟩, _, _, ⟨rfl, rfl⟩, _, _, ⟨-, rfl⟩, rfl, rfl⟩ := h
      exact .call ho hn
    case ret =>
      obtain ⟨n, _, ⟨r, hr, rfl⟩, rfl, rfl⟩ := h
      exact .ret ho hr
    case pushs =>
      obtain ⟨x, _, ⟨hx, rfl⟩, _, _, ⟨-, rfl⟩, rfl, rfl⟩ := h
      exact .pushs ho hx
    case pops =>
      obtain ⟨v, _, ⟨hv, rfl⟩, x, _, ⟨r, hr, rfl⟩, _, _, ⟨fs, hfs, rfl⟩, rfl, rfl⟩ := h
      exact .pops ho hv hr hfs
    case clears =>
      obtain ⟨_, _, ⟨-, rfl⟩, rfl, rfl⟩ := h
      exact .clears ho
    case read =>
      obtain ⟨_, _, ⟨v, _, ⟨hv, rfl⟩, type, _, ⟨ht, rfl⟩, line, _, ⟨rfl, rfl⟩, x, _, ⟨hx, rfl⟩, fs,
        hfs, rfl⟩, rfl, rfl⟩ := h
      exact .read ho hv ht hx hfs
    case write =>
      obtain ⟨x, _, ⟨hx, rfl⟩, _, _, ⟨rfl, rfl⟩, _, _, ⟨hb, rfl⟩, rfl, rfl⟩ := h
      exact .write ho hx hb
    case label =>
      obtain ⟨rfl, rfl⟩ := h
      exact .label ho
    case jump =>
      obtain ⟨n, _, ⟨hn, rfl⟩, rfl, rfl⟩ := h
      exact .jump ho hn
    case jumpIf c =>
      obtain ⟨n, _, ⟨hn, rfl⟩, a, _, ⟨ha, rfl⟩, b, _, ⟨hb, rfl⟩, taken, ht, rfl, rfl⟩ := h
      exact .jumpIf ho hn ha hb ht
    case exit =>
      obtain ⟨x, _, ⟨hx, rfl⟩, code, _, ⟨hc, rfl⟩, rfl, rfl⟩ := h
      exact .exit ho hx hc
    case dprint =>
      obtain ⟨x, _, ⟨hx, rfl⟩, _, _, ⟨rfl, rfl⟩, _, _, ⟨hb, rfl⟩, rfl, rfl⟩ := h
      exact .dprint ho hx hb
    case breakpoint =>
      obtain ⟨_, _, ⟨rfl, rfl⟩, _, _, ⟨-, rfl⟩, rfl, rfl⟩ := h
      exact .breakpoint ho
    case binaryStack op =>
      obtain ⟨b, _, ⟨_, hb, rfl⟩, a, _, ⟨r, rfl, rfl⟩, x, _, ⟨hx, rfl⟩, _, _, ⟨-, rfl⟩, rfl, rfl⟩ := h
      exact .binaryStack ho hb hx
    case unaryStack op =>
      obtain ⟨a, _, ⟨r, ha, rfl⟩, x, _, ⟨hx, rfl⟩, _, _, ⟨-, rfl⟩, rfl, rfl⟩ := h
      exact .unaryStack ho ha hx
    case jumpIfStack c =>
      obtain ⟨n, _, ⟨hn, rfl⟩, b, _, ⟨_, hb, rfl⟩, a, _, ⟨r, rfl, rfl⟩, taken, ht, rfl, rfl⟩ := h
      exact .jumpIfStack ho hn hb ht

theorem Completes.step (h : i.Completes m flow m') : i.step m = .ok flow m' := by
  cases h with
  | reframe hF hfs =>
    simp only [step_of_reframe? hF, bind_apply, changeFrames_apply, hfs, pure_apply]
  | call ho hn =>
    simp only [Instruction.step, ho, bind_apply, target_ok.2 ⟨hn, rfl⟩, get_apply, pushCall_apply,
      pure_apply]
  | ret ho hr =>
    simp only [Instruction.step, ho, bind_apply, popCall_ok.2 ⟨_, hr, rfl⟩, pure_apply]
  | pushs ho hx =>
    simp only [Instruction.step, ho, bind_apply, definedSymbol_ok.2 ⟨hx, rfl⟩, push_apply,
      pure_apply]
  | pops ho hv hr hfs =>
    simp only [Instruction.step, ho, assign, bind_apply, destination_ok.2 ⟨hv, rfl⟩,
      pop_ok.2 ⟨_, hr, rfl⟩, changeFrames_apply, hfs, pure_apply]
  | clears ho => simp only [Instruction.step, ho, bind_apply, clear_apply, pure_apply]
  | read ho hv ht hx hfs =>
    simp only [Instruction.step, ho, applyRead, assign, bind_apply, destination_ok.2 ⟨hv, rfl⟩,
      typeName_ok.2 ⟨ht, rfl⟩, readLine_apply, hx, attempt_ok, changeFrames_apply, hfs, pure_apply]
  | write ho hx hb =>
    simp only [Instruction.step, ho, bind_apply, definedSymbol_ok.2 ⟨hx, rfl⟩, printOutput_apply,
      require_apply, hb, ↓reduceIte, pure_apply]
  | label ho => simp only [Instruction.step, ho, pure_apply]
  | jump ho hn =>
    simp only [Instruction.step, ho, bind_apply, target_ok.2 ⟨hn, rfl⟩, pure_apply]
  | jumpIf ho hn ha hb ht =>
    simp only [Instruction.step, ho, bind_apply, target_ok.2 ⟨hn, rfl⟩,
      definedSymbol_ok.2 ⟨ha, rfl⟩, definedSymbol_ok.2 ⟨hb, rfl⟩, branch_eq_ok.2 ⟨_, ht, rfl, rfl⟩]
  | exit ho hx hc =>
    simp only [Instruction.step, ho, bind_apply, definedSymbol_ok.2 ⟨hx, rfl⟩, hc, attempt_ok,
      pure_apply]
  | dprint ho hx hb =>
    simp only [Instruction.step, ho, bind_apply, definedSymbol_ok.2 ⟨hx, rfl⟩,
      printDiagnostics_apply, require_apply, hb, ↓reduceIte, pure_apply]
  | breakpoint ho =>
    simp only [Instruction.step, ho, bind_apply, get_apply, printDiagnostics_apply, pure_apply]
  | binaryStack ho hr hx =>
    simp only [Instruction.step, ho, bind_apply, pop_apply, hr, hx, attempt_ok, push_apply,
      pure_apply]
  | unaryStack ho hr hx =>
    simp only [Instruction.step, ho, bind_apply, pop_apply, hr, hx, attempt_ok, push_apply,
      pure_apply]
  | jumpIfStack ho hn hr ht =>
    simp only [Instruction.step, ho, bind_apply, target_ok.2 ⟨hn, rfl⟩, pop_apply, hr,
      branch_eq_ok.2 ⟨_, ht, rfl, rfl⟩]

theorem step_ok : i.step m = .ok flow m' ↔ i.Completes m flow m' := ⟨.of_step, (·.step)⟩

/-- What comes of printing the operand on a stream; `record` puts the stream back. -/
def printed (i : Instruction) (m : Machine) (sink : Sink) (record : Sink → Machine) :
    EStateM.Result Fault Machine Flow :=
  match i.held m.frames 0 with
  | .error f => .error f m
  | .ok x =>
    if (sink.write x.display).2 then .ok .next (record (sink.write x.display).1)
    else .error .output (record (sink.write x.display).1)

theorem definedSymbol_consult (i : Instruction) (k : Nat) :
    i.definedSymbol k = consult fun m ↦ i.held m.frames k := i.definedSymbol_eq k

theorem step_write (ho : i.opcode = .write) (m : Machine) :
    i.step m = i.printed m m.output fun s ↦ { m with output := s } := by
  simp only [step, ho, definedSymbol_consult, consult_bind_apply, printed]
  cases i.held m.frames 0 with
  | error f => rfl
  | ok x =>
    simp only [bind_apply, printOutput_apply, require_apply]
    cases (m.output.write x.display).2 <;> rfl

theorem step_dprint (ho : i.opcode = .dprint) (m : Machine) :
    i.step m = i.printed m m.diagnostics fun s ↦ { m with diagnostics := s } := by
  simp only [step, ho, definedSymbol_consult, consult_bind_apply, printed]
  cases i.held m.frames 0 with
  | error f => rfl
  | ok x =>
    simp only [bind_apply, printDiagnostics_apply, require_apply]
    cases (m.diagnostics.write x.display).2 <;> rfl

section

variable {sink : Sink} {record : Sink → Machine} {x : Value}

theorem printed_ok (hx : i.held m.frames 0 = .ok x) (hb : (sink.write x.display).2 = true) :
    i.printed m sink record = .ok .next (record (sink.write x.display).1) := by
  simp only [printed, hx, hb, ↓reduceIte]

theorem printed_refused (hx : i.held m.frames 0 = .ok x)
    (hb : (sink.write x.display).2 = false) :
    i.printed m sink record = .error .output (record (sink.write x.display).1) := by
  simp only [printed, hx, hb, Bool.false_eq_true, ↓reduceIte]

theorem of_printed_error (h : i.printed m sink record = .error f m') :
    m' = m ∨ ∃ x, i.held m.frames 0 = .ok x ∧ (sink.write x.display).2 = false ∧ f = .output ∧
      m' = record (sink.write x.display).1 := by
  cases hx : i.held m.frames 0 with
  | error e =>
    simp only [printed, hx] at h
    cases h
    exact .inl rfl
  | ok x =>
    cases hb : (sink.write x.display).2 with
    | true =>
      rw [printed_ok hx hb] at h
      cases h
    | false =>
      rw [printed_refused hx hb] at h
      cases h
      exact .inr ⟨x, rfl, hb, rfl, rfl⟩

end

theorem varAt_of_place {v : VarRef} {fs : Frames} (h : i.place fs k = .ok v) :
    i.varAt k = .ok v ∧ ∃ x, fs.get v = .ok x := by
  obtain ⟨w, hw, h⟩ := Except.bind_eq_ok.1 h
  obtain ⟨x, hx, h⟩ := Except.bind_eq_ok.1 h
  cases h
  exact ⟨hw, x, hx⟩

/-- A variable that was found can be assigned. -/
theorem set_of_place {v : VarRef} {x : Value} {fs : Frames} (h : i.place fs k = .ok v) :
    fs.set v x ≠ .error f := by
  intro hs
  obtain ⟨-, y, hy⟩ := varAt_of_place h
  rw [Frames.get_error.2 (Frames.set_error.1 hs)] at hy
  cases hy

namespace Fails

theorem of_drop {r : List Value} (h : m.operands.drop i.opcode.operandsTaken = r) :
    i.Fails m f { m with operands := r } := h ▸ .taken

theorem intact (h : i.opcode.operandsTaken = 0) : i.Fails m f m :=
  of_drop (by rw [h, List.drop_zero])

theorem exhausted (h : m.operands = []) : i.Fails m f m := of_drop (by rw [h, List.drop_nil])

theorem of_step (h : i.step m = .error f m') : i.Fails m f m' := by
  cases hF : i.reframe? with
  | some F =>
    have ht : i.opcode.operandsTaken = 0 := by
      cases ho : i.opcode <;> simp only [reframe?, ho, reduceCtorEq] at hF <;> rfl
    rw [step_of_reframe? hF] at h
    rcases bind_error.1 h with hc | ⟨_, _, -, h⟩
    · obtain ⟨-, rfl⟩ := changeFrames_error.1 hc
      exact .intact ht
    · cases h
  | none =>
    cases ho : i.opcode <;> simp only [reframe?, ho, reduceCtorEq] at hF <;>
      simp only [step, ho, applyRead, assign, bind_ok, bind_error, target_ok, target_error,
        definedSymbol_ok, definedSymbol_error, destination_ok, destination_error, typeName_ok,
        typeName_error, popCall_error, pop_ok, pop_error, changeFrames_error, attempt_eq_ok,
        attempt_eq_error, require_error, branch_eq_error, get_apply, pure_apply, push_apply,
        pushCall_apply, clear_apply, readLine_apply, printOutput_apply, printDiagnostics_apply,
        EStateM.Result.ok.injEq, reduceCtorEq, and_false, exists_false, or_false, false_or] at h
    case call | jump =>
      obtain ⟨hn, rfl⟩ := h
      exact .unresolved (by rw [ho]; rfl) hn
    case ret =>
      obtain ⟨-, -, rfl⟩ := h
      exact .intact (by rw [ho]; rfl)
    case pushs =>
      obtain ⟨-, rfl⟩ := h
      exact .intact (by rw [ho]; rfl)
    case pops =>
      rcases h with ⟨-, rfl⟩ | ⟨v, _, ⟨hv, rfl⟩, ⟨-, -, rfl⟩ | ⟨x, _, ⟨r, -, rfl⟩, hs, -⟩⟩
      · exact .intact (by rw [ho]; rfl)
      · exact .intact (by rw [ho]; rfl)
      -- The value is gone by now, but what was found as a destination takes it.
      · exact absurd hs (set_of_place hv)
    case read =>
      rcases h with ⟨-, rfl⟩ | ⟨v, _, ⟨hv, rfl⟩, ⟨-, rfl⟩ | ⟨type, _, ⟨ht, rfl⟩, line, _, ⟨rfl, rfl⟩,
        ⟨hx, rfl⟩ | ⟨x, _, ⟨-, rfl⟩, hs, -⟩⟩⟩
      · exact .intact (by rw [ho]; rfl)
      · exact .intact (by rw [ho]; rfl)
      · obtain ⟨hn, rfl⟩ := Value.ofLine_error hx
        exact .read ho ht hn
      · exact absurd hs (set_of_place hv)
    case write =>
      rcases h with ⟨-, rfl⟩ | ⟨x, _, ⟨hx, rfl⟩, _, _, ⟨rfl, rfl⟩, hb, rfl, rfl⟩
      · exact .intact (by rw [ho]; rfl)
      · exact .write ho hx hb
    case jumpIf c =>
      rcases h with ⟨hn, rfl⟩ | ⟨n, _, ⟨-, rfl⟩, ⟨-, rfl⟩ | ⟨a, _, ⟨-, rfl⟩, ⟨-, rfl⟩ |
        ⟨b, _, ⟨-, rfl⟩, -, rfl⟩⟩⟩
      · exact .unresolved (by rw [ho]; rfl) hn
      all_goals exact .intact (by rw [ho]; rfl)
    case exit =>
      rcases h with ⟨-, rfl⟩ | ⟨x, _, ⟨-, rfl⟩, -, rfl⟩
      all_goals exact .intact (by rw [ho]; rfl)
    case dprint =>
      rcases h with ⟨-, rfl⟩ | ⟨x, _, ⟨hx, rfl⟩, _, _, ⟨rfl, rfl⟩, hb, rfl, rfl⟩
      · exact .intact (by rw [ho]; rfl)
      · exact .dprint ho hx hb
    case binaryStack op =>
      rcases h with ⟨hr, -, rfl⟩ | ⟨b, _, ⟨r, hr, rfl⟩, ⟨hs, -, rfl⟩ | ⟨a, _, ⟨s, hs, rfl⟩, -, rfl⟩⟩
      · exact .exhausted hr
      -- The first value is taken although there is no second one.
      · exact .of_drop (by rw [ho, hr, show r = [] from hs]; rfl)
      · exact .of_drop (by rw [ho, hr, show r = a :: s from hs]; rfl)
    case unaryStack op =>
      rcases h with ⟨hr, -, rfl⟩ | ⟨a, _, ⟨r, hr, rfl⟩, -, rfl⟩
      · exact .exhausted hr
      · exact .of_drop (by rw [ho, hr]; rfl)
    case jumpIfStack c =>
      rcases h with ⟨hn, rfl⟩ | ⟨n, _, ⟨hn, rfl⟩, ⟨hr, -, rfl⟩ | ⟨b, _, ⟨r, hr, rfl⟩, ⟨hs, -, rfl⟩ |
        ⟨a, _, ⟨s, hs, rfl⟩, -, rfl⟩⟩⟩
      · exact .unresolved (by rw [ho]; rfl) hn
      · exact .exhausted hr
      · exact .of_drop (by rw [ho, hr, show r = [] from hs]; rfl)
      · exact .of_drop (by rw [ho, hr, show r = a :: s from hs]; rfl)

end Fails

end Instruction

end ThreeAddress
