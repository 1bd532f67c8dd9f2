import ThreeAddress.Proofs.DiagnosticStreams
import ThreeAddress.Proofs.Faults
import ThreeAddress.Proofs.Handlers

namespace ThreeAddress

open Effect

namespace Instruction

/-- The argument in a slot is there and of the kind that is asked for. -/
def Fills (i : Instruction) (slot : OperandKind × Nat) : Prop :=
  ∃ a, i.arguments[slot.2]? = some a ∧ a.fits slot.1 = true

/-- There is a fitting argument in each slot of the signature. -/
def Supplied (i : Instruction) : Prop := ∀ slot ∈ i.opcode.signature.zipIdx, i.Fills slot

/-- The instruction with other arguments behind those that its signature asks for. -/
def withSurplus (i : Instruction) (surplus : List Argument) : Instruction :=
  { i with arguments := i.arguments.take i.opcode.signature.length ++ surplus }

end Instruction

namespace Effect

variable {α β : Type} {i : Instruction} {slot slot' : OperandKind × Nat}
  {slots slots' : List (OperandKind × Nat)}

/-- An effect completes only if the given slots are filled, and complains of none but them. -/
structure Demands (i : Instruction) (slots : List (OperandKind × Nat)) (x : Effect α) : Prop where
  blames : ∀ m k m', x m = .error (.malformedOperand k) m' →
    ∃ slot ∈ slots, slot.2 = k ∧ ¬ i.Fills slot
  refuses : ∀ slot ∈ slots, ¬ i.Fills slot → ∀ m a m', x m ≠ .ok a m'

namespace Demands

theorem bind {x : Effect α} {g : α → Effect β} (hx : Demands i slots x)
    (hg : ∀ a, Demands i slots' (g a)) : Demands i (slots ++ slots') (x >>= g) where
  blames m k m' h := by
    rcases bind_error.1 h with h | ⟨a, m₁, -, h⟩
    · obtain ⟨slot, hs, hk⟩ := hx.blames m k m' h
      exact ⟨slot, List.mem_append_left _ hs, hk⟩
    · obtain ⟨slot, hs, hk⟩ := (hg a).blames m₁ k m' h
      exact ⟨slot, List.mem_append_right _ hs, hk⟩
  refuses slot hs hn m b m' h := by
    obtain ⟨a, m₁, ha, hb⟩ := bind_ok.1 h
    rcases List.mem_append.1 hs with hs | hs
    · exact hx.refuses slot hs hn m a m₁ ha
    · exact (hg a).refuses slot hs hn m₁ b m' hb

theorem of_ordinary {x : Effect α} (h : ∀ m, OrdinaryAt x m) : Demands i [] x where
  blames m k m' hx := by cases h m _ m' hx
  refuses _ hs := absurd hs List.not_mem_nil

theorem of_succeeds {x : Effect α} (h : ∀ m f m', x m ≠ .error f m') : Demands i [] x :=
  .of_ordinary fun m f m' hx ↦ absurd hx (h m f m')

/-- An effect that looks at the argument in one slot. -/
theorem of_slot {x : Effect α} {kind : OperandKind} {k : Nat}
    (hf : ∀ a, i.arguments[k]? = some a → a.fits kind = true →
      ∀ m j m', x m ≠ .error (.malformedOperand j) m')
    (hu : ∀ a, i.arguments[k]? = some a → a.fits kind = false →
      ∀ m, x m = .error (.malformedOperand k) m)
    (hn : i.arguments[k]? = none → ∀ m, x m = .error (.malformedOperand k) m) :
    Demands i [(kind, k)] x := by
  have hx (h : ¬ i.Fills (kind, k)) (m : Machine) : x m = .error (.malformedOperand k) m := by
    cases ha : i.arguments[k]? with
    | none => exact hn ha m
    | some a => exact hu a ha (Bool.eq_false_iff.2 fun hfits ↦ h ⟨a, ha, hfits⟩) m
  constructor
  · intro m j m' h
    by_cases hs : i.Fills (kind, k)
    · obtain ⟨a, ha, hfits⟩ := hs
      exact absurd h (hf a ha hfits m j m')
    · rw [hx hs m] at h
      cases h
      exact ⟨_, List.mem_singleton_self _, rfl, hs⟩
  · intro slot hs hfills m a m' h
    obtain rfl := List.mem_singleton.1 hs
    rw [hx hfills m] at h
    cases h

/-- A slot that is looked at a second time, and asked for no more than at first. -/
theorem again {x : Effect α} (h : Demands i (slot :: slot' :: slots) x) (hk : slot'.2 = slot.2)
    (hf : i.Fills slot → i.Fills slot') : Demands i (slot :: slots) x where
  blames m k m' hx := by
    obtain ⟨s, hs, hsk, hsn⟩ := h.blames m k m' hx
    rcases List.mem_cons.1 hs with rfl | hs
    · exact ⟨s, List.mem_cons_self, hsk, hsn⟩
    · rcases List.mem_cons.1 hs with rfl | hs
      · exact ⟨slot, List.mem_cons_self, hk.symm.trans hsk, fun hn ↦ hsn (hf hn)⟩
      · exact ⟨s, List.mem_cons_of_mem _ hs, hsk, hsn⟩
  refuses s hs := h.refuses s (by
    rcases List.mem_cons.1 hs with rfl | hs
    · exact List.mem_cons_self
    · exact List.mem_cons_of_mem _ (List.mem_cons_of_mem _ hs))

theorem pure (a : α) : Demands i [] (Pure.pure a) := .of_ordinary fun _ ↦ .pure a

theorem attempt {r : Except Fault α} (h : Ordinary r) : Demands i [] (Effect.attempt r) :=
  .of_ordinary fun _ ↦ .attempt h

theorem defined (x : Value) : Demands i [] (Effect.defined x) := by
  rw [defined_eq]
  exact .of_ordinary fun _ ↦ .consult (.present x)

theorem assign (v : VarRef) (x : Value) : Demands i [] (Effect.assign v x) :=
  .of_ordinary fun m ↦ .changeFrames (.set m.frames v x)

theorem pop : Demands i [] Effect.pop := .of_ordinary fun _ ↦ .pop

theorem push (x : Value) : Demands i [] (Effect.push x) := .of_ordinary fun _ ↦ .push x

theorem output (b : Bool) : Demands i [] (Effect.require b .output) where
  blames m k m' h := by cases (require_error.1 h).2.1
  refuses _ hs := absurd hs List.not_mem_nil

end Demands

end Effect

namespace Instruction

variable (i : Instruction) (k : Nat)

theorem named_demands : Demands i [(.var, k)] (i.named k) := by
  refine .of_slot (fun a ha hf m j m' h ↦ ?_) (fun a ha hu m ↦ ?_) fun ha m ↦ ?_
  · obtain ⟨v, rfl⟩ := Argument.fits_var.1 hf
    simp only [named, ha] at h
    cases h
  · cases a with
    | var v => cases hu
    | _ =>
      simp only [named, ha]
      rfl
  · simp only [named, ha]
    rfl

theorem value_ordinary (v : VarRef) (m : Machine) : OrdinaryAt (value v) m :=
  .consult (.of_missing? fun _ h ↦ ⟨v, Frames.get_error.1 h⟩)

theorem destination_demands : Demands i [(.var, k)] (i.destination k) :=
  (i.named_demands k).bind fun v ↦ (Demands.of_ordinary (value_ordinary v)).bind fun _ ↦ .pure v

theorem symbol_demands : Demands i [(.symb, k)] (i.symbol k) := by
  refine .of_slot (fun a ha hf m j m' h ↦ ?_) (fun a ha hu m ↦ ?_) fun ha m ↦ ?_
  · rcases Argument.fits_symb.1 hf with ⟨v, rfl⟩ | ⟨x, rfl⟩
    · simp only [symbol, ha] at h
      cases value_ordinary v m _ _ h
    · simp only [symbol, ha] at h
      cases h
  · cases a with
    | var v | literal x => cases hu
    | _ =>
      simp only [symbol, ha]
      rfl
  · simp only [symbol, ha]
    rfl

theorem definedSymbol_demands : Demands i [(.symb, k)] (i.definedSymbol k) :=
  (i.symbol_demands k).bind .defined

theorem typeName_demands : Demands i [(.type, k)] (i.typeName k) := by
  refine .of_slot (fun a ha hf m j m' h ↦ ?_) (fun a ha hu m ↦ ?_) fun ha m ↦ ?_
  · obtain ⟨name, rfl⟩ := Argument.fits_type.1 hf
    simp only [typeName, ha] at h
    cases h
  · cases a with
    | type name => cases hu
    | _ =>
      simp only [typeName, ha]
      rfl
  · simp only [typeName, ha]
    rfl

theorem target_demands : Demands i [(.label, 0)] i.target := by
  refine .of_slot (fun a ha hf m j m' h ↦ ?_) (fun a ha hu m ↦ ?_) fun ha m ↦ ?_
  · obtain ⟨name, rfl⟩ := Argument.fits_label.1 hf
    rw [target_eq, consult_error, goal_label (List.head?_eq_getElem? ▸ ha), Labels.seek] at h
    cases hn : m.labels.target? name with
    | none => cases hn ▸ h.1
    | some n => cases hn ▸ h.1
  · cases a with
    | label name => cases hu
    | _ =>
      simp only [target, List.head?_eq_getElem?, ha]
      rfl
  · simp only [target, List.head?_eq_getElem?, ha]
    rfl

theorem applyUnary_demands {op : Value → Except Fault Value} (hop : ∀ a, Ordinary (op a)) :
    Demands i [(.var, 0), (.symb, 1)] (i.applyUnary op) := by
  refine (i.destination_demands 0).bind fun v ↦ (i.definedSymbol_demands 1).bind fun a ↦ ?_
  exact (Demands.attempt (hop a)).bind fun x ↦ .assign v x

theorem applyBinary_demands {op : Value → Value → Except Fault Value}
    (hop : ∀ a b, Ordinary (op a b)) :
    Demands i [(.var, 0), (.symb, 1), (.symb, 2)] (i.applyBinary op) := by
  refine (i.destination_demands 0).bind fun v ↦ (i.symbol_demands 1).bind fun a ↦ ?_
  refine (i.symbol_demands 2).bind fun b ↦ (Demands.defined a).bind fun a ↦ ?_
  refine (Demands.defined b).bind fun b ↦ (Demands.attempt (hop a b)).bind fun x ↦ ?_
  exact .assign v x

theorem applySetChar_demands :
    Demands i [(.var, 0), (.symb, 1), (.symb, 2)] i.applySetChar := by
  have h : Demands i [(.var, 0), (.symb, 0), (.symb, 1), (.symb, 2)] i.applySetChar := by
    refine (i.destination_demands 0).bind fun v ↦ (i.symbol_demands 0).bind fun s ↦ ?_
    refine (i.symbol_demands 1).bind fun n ↦ (i.symbol_demands 2).bind fun r ↦ ?_
    refine (Demands.defined s).bind fun s ↦ (Demands.defined n).bind fun n ↦ ?_
    refine (Demands.defined r).bind fun r ↦ ?_
    exact (Demands.attempt (.of_typed (setChar_typed s n r))).bind fun x ↦ .assign v x
  -- What can be changed in its place is a variable, whose value can be looked up.
  refine h.again rfl ?_
  rintro ⟨a, ha, hf⟩
  obtain ⟨v, rfl⟩ := Argument.fits_var.1 hf
  exact ⟨.var v, ha, rfl⟩

theorem applyRead_demands : Demands i [(.var, 0), (.type, 1)] i.applyRead := by
  refine (i.destination_demands 0).bind fun v ↦ (i.typeName_demands 1).bind fun type ↦ ?_
  refine (Demands.of_succeeds fun m f m' h ↦ by cases h).bind fun line ↦ ?_
  have hx : Demands i [] (attempt (Value.ofLine type line)) := by
    refine ⟨fun m k m' h ↦ ?_, fun _ hs ↦ ?_⟩
    · cases (Value.ofLine_error (attempt_eq_error.1 h).1).2
    · exact absurd hs List.not_mem_nil
  exact hx.bind fun x ↦ .assign v x

theorem branch_demands (c : Condition) (n : Nat) (a b : Value) :
    Demands i [] (branch c n a b) := .of_ordinary fun _ ↦ branch_ordinary c n a b

theorem changeFrames_demands {F : Frames → Except Fault Frames} (h : ∀ fs, Ordinary (F fs)) :
    Demands i [] (changeFrames F) := .of_ordinary fun m ↦ .changeFrames (h m.frames)

/-- An instruction asks for what its signature says, except that a label stands for its place
without being looked at. -/
theorem step_demands (hl : i.opcode ≠ .label) :
    Demands i i.opcode.signature.zipIdx i.step := by
  cases ho : i.opcode <;> simp only [step, ho]
  case move =>
    refine (i.destination_demands 0).bind fun v ↦ (i.definedSymbol_demands 1).bind fun x ↦ ?_
    exact (Demands.assign v x).bind fun _ ↦ .pure _
  case createFrame => exact (i.changeFrames_demands fun fs ↦ .ok _).bind fun _ ↦ .pure _
  case pushFrame =>
    refine (i.changeFrames_demands fun fs f h ↦ ?_).bind fun _ ↦ .pure _
    rw [Frames.push_error h]
    rfl
  case popFrame =>
    refine (i.changeFrames_demands fun fs f h ↦ ?_).bind fun _ ↦ .pure _
    rw [Frames.pop_error h]
    rfl
  case defVar =>
    refine (i.named_demands 0).bind fun v ↦ (i.changeFrames_demands fun fs f h ↦ ?_).bind fun _ ↦
      .pure _
    rcases Frames.define_error h with rfl | rfl <;> rfl
  case call =>
    refine i.target_demands.bind fun n ↦ .of_succeeds fun m f m' h ↦ ?_
    cases h
  case ret => exact (Demands.of_ordinary fun _ ↦ .popCall).bind fun _ ↦ .pure _
  case pushs =>
    exact (i.definedSymbol_demands 0).bind fun x ↦ (Demands.push x).bind fun _ ↦ .pure _
  case pops =>
    refine (i.destination_demands 0).bind fun v ↦ Demands.pop.bind fun x ↦ ?_
    exact (Demands.assign v x).bind fun _ ↦ .pure _
  case clears => exact .of_succeeds fun m f m' h ↦ by cases h
  case binary op =>
    exact (i.applyBinary_demands fun a b ↦ .of_typed (op.apply_typed a b)).bind fun _ ↦ .pure _
  case unary op =>
    exact (i.applyUnary_demands fun a ↦ .of_typed (op.apply_typed a)).bind fun _ ↦ .pure _
  case read => exact i.applyRead_demands.bind fun _ ↦ .pure _
  case write =>
    refine (i.definedSymbol_demands 0).bind fun x ↦ ?_
    refine (Demands.of_succeeds fun m f m' h ↦ by cases h).bind fun b ↦ ?_
    exact (Demands.output b).bind fun _ ↦ .pure _
  case concat =>
    exact (i.applyBinary_demands fun a b ↦ .of_typed (concat_typed a b)).bind fun _ ↦ .pure _
  case strlen =>
    exact (i.applyUnary_demands fun a ↦ .of_typed (strlen_typed a)).bind fun _ ↦ .pure _
  case getChar =>
    exact (i.applyBinary_demands fun a b ↦ .of_typed (getChar_typed a b)).bind fun _ ↦ .pure _
  case setChar => exact i.applySetChar_demands.bind fun _ ↦ .pure _
  case type =>
    refine (i.destination_demands 0).bind fun v ↦ (i.symbol_demands 1).bind fun x ↦ ?_
    exact (Demands.assign v _).bind fun _ ↦ .pure _
  case label => exact absurd ho hl
  case jump => exact i.target_demands.bind fun n ↦ .pure _
  case jumpIf c =>
    refine i.target_demands.bind fun n ↦ (i.definedSymbol_demands 1).bind fun a ↦ ?_
    exact (i.definedSymbol_demands 2).bind fun b ↦ i.branch_demands c n a b
  case exit =>
    refine (i.definedSymbol_demands 0).bind fun x ↦ ?_
    exact (Demands.attempt (.of_typed (exitCode_typed x))).bind fun _ ↦ .pure _
  case dprint =>
    refine (i.definedSymbol_demands 0).bind fun x ↦ ?_
    refine (Demands.of_succeeds fun m f m' h ↦ by cases h).bind fun b ↦ ?_
    exact (Demands.output b).bind fun _ ↦ .pure _
  case breakpoint => exact .of_succeeds fun m f m' h ↦ by cases h
  case binaryStack op =>
    refine Demands.pop.bind fun b ↦ Demands.pop.bind fun a ↦ ?_
    refine (Demands.attempt (.of_typed (op.apply_typed a b))).bind fun x ↦ ?_
    exact (Demands.push x).bind fun _ ↦ .pure _
  case unaryStack op =>
    refine Demands.pop.bind fun a ↦ (Demands.attempt (.of_typed (op.apply_typed a))).bind fun x ↦ ?_
    exact (Demands.push x).bind fun _ ↦ .pure _
  case jumpIfStack c =>
    refine i.target_demands.bind fun n ↦ Demands.pop.bind fun b ↦ Demands.pop.bind fun a ↦ ?_
    exact i.branch_demands c n a b

section

variable {i} {i' : Instruction}

/-- Of the arguments an instruction looks at those only that are in the slots of its signature, and
it does not look at its order. -/
theorem step_congr (ho : i'.opcode = i.opcode)
    (ha : ∀ k < i.opcode.signature.length, i'.arguments[k]? = i.arguments[k]?) :
    i'.step = i.step := by
  cases o : i.opcode with
  | createFrame | pushFrame | popFrame | ret | clears | label | breakpoint | binaryStack op
  | unaryStack op => simp only [step, ho, o]
  | defVar | pops | pushs | write | exit | dprint =>
    have h₀ := ha 0 (by rw [o]; decide)
    simp only [step, ho, o, destination, named, definedSymbol, symbol, h₀]
  | call | jump | jumpIfStack c =>
    have h₀ := ha 0 (by rw [o]; exact Nat.zero_lt_one)
    simp only [step, ho, o, target, List.head?_eq_getElem?, h₀]
  | move | unary op | strlen | type =>
    have h₀ := ha 0 (by rw [o]; exact Nat.zero_lt_two)
    have h₁ := ha 1 (by rw [o]; exact Nat.one_lt_two)
    simp only [step, ho, o, applyUnary, destination, named, definedSymbol, symbol, h₀, h₁]
  | read =>
    have h₀ := ha 0 (by rw [o]; decide)
    have h₁ := ha 1 (by rw [o]; decide)
    simp only [step, ho, o, applyRead, destination, named, typeName, h₀, h₁]
  | binary op | concat | getChar | setChar =>
    have h₀ := ha 0 (by rw [o]; exact Nat.zero_lt_succ 2)
    have h₁ := ha 1 (by rw [o]; exact Nat.one_lt_succ_succ 1)
    have h₂ := ha 2 (by rw [o]; exact Nat.lt_succ_self 2)
    simp only [step, ho, o, applyBinary, applySetChar, destination, named, symbol, h₀, h₁, h₂]
  | jumpIf c =>
    have h₀ := ha 0 (by rw [o]; exact Nat.zero_lt_succ 2)
    have h₁ := ha 1 (by rw [o]; exact Nat.one_lt_succ_succ 1)
    have h₂ := ha 2 (by rw [o]; exact Nat.lt_succ_self 2)
    simp only [step, ho, o, target, List.head?_eq_getElem?, definedSymbol, symbol, h₀, h₁, h₂]

theorem Supplied.exists (h : i.Supplied) {k : Nat} (hk : k < i.opcode.signature.length) :
    ∃ a, i.arguments[k]? = some a := by
  have hs : (i.opcode.signature[k], k) ∈ i.opcode.signature.zipIdx :=
    List.mem_zipIdx_iff_getElem?.2 (List.getElem?_eq_getElem hk)
  obtain ⟨a, ha, -⟩ := h _ hs
  exact ⟨a, ha⟩

theorem Supplied.step_withSurplus (h : i.Supplied) (surplus : List Argument) :
    (i.withSurplus surplus).step = i.step := by
  refine step_congr rfl fun k hk ↦ ?_
  obtain ⟨a, ha⟩ := h.exists hk
  have hl : k < (i.arguments.take i.opcode.signature.length).length := by
    rw [List.length_take, Nat.lt_min]
    exact ⟨hk, (List.getElem?_eq_some_iff.1 ha).1⟩
  rw [withSurplus, List.getElem?_append_left hl, List.getElem?_take_of_lt hk]

end

end Instruction

namespace Machine

variable {m m' : Machine} {i i' : Instruction} {f : Fault} {flow : Flow} {p : Program}

theorem recast_id (p : Program) (m : Machine) :
    m.recast p id m.diagnostics = { m with program := p } := by
  have hl : m.labels.rename id = m.labels := congrArg Labels.mk (List.map_id m.labels.targets)
  rw [recast, hl]

/-- Of the program an instruction sees no more than what a report tells of the place. -/
theorem step_program (hr : ({ m with program := p } : Machine).report = m.report) :
    i.step { m with program := p } = match i.step m with
      | .ok flow m' => .ok flow { m' with program := p }
      | .error f m' => .error f { m' with program := p } := by
  by_cases hd : i.opcode = .dprint
  · rw [Instruction.step_dprint hd, Instruction.step_dprint hd, Instruction.printed,
      Instruction.printed]
    cases i.held m.frames 0 with
    | error f => rfl
    | ok x =>
      dsimp only
      cases (m.diagnostics.write x.display).2 <;> rfl
  · by_cases hb : i.opcode = .breakpoint
    · have hs := (Instruction.Completes.breakpoint (m := m) hb).step
      have hs' := (Instruction.Completes.breakpoint (m := { m with program := p }) hb).step
      rw [hs, hs', hr]
    · have hs := Instruction.step_recasts (p := p) (f := id) (d := m.diagnostics)
        Function.injective_id hd hb m
      have hm := Instruction.step_diagnostics (m := m) hd hb
      rw [Instruction.rename_id, recast_id] at hs
      rw [hs]
      cases hi : i.step m with
      | ok flow m' =>
        rw [after_of_ok hi] at hm
        rw [recastResult, ← hm, recast_id]
      | error f m' =>
        rw [after_of_error hi] at hm
        rw [recastResult, ← hm, recast_id, Fault.rename_id]

/-- Two programs whose current instructions do the same go on in the same way. -/
theorem advance_program (hi : m.instruction? = some i) (hp : p.instructions[m.pc]? = some i')
    (horder : i'.order = i.order) (ho : i'.opcode = i.opcode) (hs : i'.step = i.step) :
    ({ m with program := p } : Machine).advance =
      ({ m.advance.1 with program := p }, m.advance.2) := by
  have hi' : ({ m with program := p } : Machine).instruction? = some i' := hp
  have hr : ({ m with program := p } : Machine).report = m.report := by
    simp only [report, reportLines, hi, hi', Option.map_some, horder]
  have hstep := step_program (i := i) hr
  rw [← hs] at hstep
  cases h : i.step m with
  | ok flow m' =>
    rw [hs, h] at hstep
    rw [advance_of_ok hi h, advance_of_ok hi' (hs ▸ hstep)]
    cases flow <;> rfl
  | error f m' =>
    rw [hs, h] at hstep
    rw [advance_of_error hi h, advance_of_error hi' (hs ▸ hstep), RuntimeError.ofInstruction,
      RuntimeError.ofInstruction, horder, ho]

end Machine

namespace Instruction

/-- If there is a fitting argument in each slot of the signature, no operand is complained of, and
whatever stands behind these arguments changes nothing. If there is not, only a label can be passed
by. -/
theorem signature_exact (i : Instruction) (m : Machine) :
    (i.Supplied →
      (∀ k m', i.step m ≠ .error (.malformedOperand k) m') ∧
      ∀ surplus, (i.withSurplus surplus).step m = i.step m ∧
        ∀ p : Program, m.instruction? = some i →
          p.instructions[m.pc]? = some (i.withSurplus surplus) →
          ({ m with program := p } : Machine).advance =
            ({ m.advance.1 with program := p }, m.advance.2)) ∧
    (¬ i.Supplied → i.opcode ≠ .label → ∀ flow m', i.step m ≠ .ok flow m') := by
  constructor
  · intro h
    refine ⟨fun k m' hs ↦ ?_, fun surplus ↦ ⟨?_, fun p hi hp ↦ ?_⟩⟩
    · have hl : i.opcode ≠ .label := by
        intro ho
        simp only [step, ho] at hs
        cases hs
      obtain ⟨slot, hslot, -, hn⟩ := (i.step_demands hl).blames m k m' hs
      exact hn (h slot hslot)
    · rw [h.step_withSurplus surplus]
    · exact Machine.advance_program hi hp rfl rfl (h.step_withSurplus surplus)
  · intro h hl flow m' hs
    refine h fun slot hslot ↦ ?_
    by_contra hn
    exact (i.step_demands hl).refuses slot hslot hn m flow m' hs

end Instruction

end ThreeAddress
