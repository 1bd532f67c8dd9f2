import ThreeAddress.Proofs.Operands
import ThreeAddress.Proofs.OperandTypes

namespace ThreeAddress

open Effect

/-- The faults that loading and the resolution of labels rule out. -/
def Fault.isStatic : Fault → Bool
  | .malformedOperand _ | .unsupportedReadType _ | .undefinedLabel _ | .duplicateLabel _ => true
  | _ => false

/-- The faults that need no stream to refuse its text. -/
def Fault.ordinary (f : Fault) : Bool := !f.isStatic && f.kind != .internal

theorem Fault.ordinary_of_ofValue {f : Fault} (h : f.ofValue = true) : f.ordinary = true := by
  cases f <;> first
    | rfl
    | cases h

/-- A result that is no other fault than an ordinary one. -/
def Ordinary {α : Type} (r : Except Fault α) : Prop := ∀ f, r = .error f → f.ordinary = true

namespace Ordinary

variable {α β : Type}

theorem ok (a : α) : Ordinary (.ok a) := fun _ h ↦ by cases h

theorem bind {r : Except Fault α} {g : α → Except Fault β} (hr : Ordinary r)
    (hg : ∀ a, Ordinary (g a)) : Ordinary (r >>= g) := by
  intro f h
  rcases Except.bind_eq_error.1 h with h | ⟨a, -, h⟩
  · exact hr f h
  · exact hg a f h

theorem of_typed {suitable : Bool} {r : Except Fault α} (h : Typed suitable r) : Ordinary r := by
  intro f hf
  cases suitable with
  | true => exact Fault.ordinary_of_ofValue (h.ofValue rfl f hf)
  | false =>
    rw [h.mismatch rfl] at hf
    cases hf
    rfl

theorem present (x : Value) : Ordinary x.present := by
  intro f h
  simp only [Value.present] at h
  split at h
  · cases h
    rfl
  · cases h

theorem of_missing? {r : Except Fault α} {fs : Frames}
    (h : ∀ f, r = .error f → ∃ v, fs.missing? v = some f) : Ordinary r := by
  intro f hf
  obtain ⟨v, hv⟩ := h f hf
  rcases Frames.missing?_kind hv with rfl | rfl <;> rfl

theorem set (fs : Frames) (v : VarRef) (x : Value) : Ordinary (fs.set v x) :=
  of_missing? fun _ h ↦ ⟨v, Frames.set_error.1 h⟩

end Ordinary

namespace Instruction

variable {i : Instruction} (hi : i.WellFormed) (fs : Frames)
include hi

theorem operand_ordinary {k : Nat} {kind : OperandKind}
    (hk : i.opcode.signature[k]? = some kind) (hs : kind = .var ∨ kind = .symb) :
    Ordinary (i.operand fs k) :=
  .of_missing? fun _ h ↦ (hi.operand_error hk hs h).imp fun _ hv ↦ hv.2

theorem place_ordinary {k : Nat} (hk : i.opcode.signature[k]? = some .var) :
    Ordinary (i.place fs k) :=
  .of_missing? fun _ h ↦ (hi.place_error hk h).imp fun _ hv ↦ hv.2

theorem definedOperand_ordinary {k : Nat} (hk : i.opcode.signature[k]? = some .symb) :
    Ordinary (i.operand fs k >>= Value.present) :=
  (operand_ordinary hi fs hk (.inr rfl)).bind .present

theorem unaryFrames_ordinary {op : Value → Except Fault Value}
    (hs : i.opcode.signature = [.var, .symb]) (hop : ∀ a, Ordinary (op a)) :
    Ordinary (i.unaryFrames fs op) := by
  refine (place_ordinary hi fs (by rw [hs]; rfl)).bind fun v ↦ ?_
  refine (operand_ordinary hi fs (by rw [hs]; rfl) (.inr rfl)).bind fun a ↦ ?_
  refine (Ordinary.present a).bind fun a ↦ ?_
  exact (hop a).bind fun x ↦ .set fs v x

theorem binaryFrames_ordinary {op : Value → Value → Except Fault Value}
    (hs : i.opcode.signature = [.var, .symb, .symb]) (hop : ∀ a b, Ordinary (op a b)) :
    Ordinary (i.binaryFrames fs op) := by
  refine (place_ordinary hi fs (by rw [hs]; rfl)).bind fun v ↦ ?_
  refine (operand_ordinary hi fs (by rw [hs]; rfl) (.inr rfl)).bind fun a ↦ ?_
  refine (operand_ordinary hi fs (by rw [hs]; rfl) (.inr rfl)).bind fun b ↦ ?_
  refine (Ordinary.present a).bind fun a ↦ (Ordinary.present b).bind fun b ↦ ?_
  exact (hop a b).bind fun x ↦ .set fs v x

theorem setCharFrames_ordinary (hs : i.opcode.signature = [.var, .symb, .symb]) :
    Ordinary (i.setCharFrames fs) := by
  refine (place_ordinary hi fs (by rw [hs]; rfl)).bind fun v ↦ ?_
  refine (operand_ordinary hi fs (by rw [hs]; rfl) (.inl rfl)).bind fun s ↦ ?_
  refine (operand_ordinary hi fs (by rw [hs]; rfl) (.inr rfl)).bind fun n ↦ ?_
  refine (operand_ordinary hi fs (by rw [hs]; rfl) (.inr rfl)).bind fun r ↦ ?_
  refine (Ordinary.present s).bind fun s ↦ (Ordinary.present n).bind fun n ↦ ?_
  refine (Ordinary.present r).bind fun r ↦ ?_
  exact (Ordinary.of_typed (setChar_typed s n r)).bind fun x ↦ .set fs v x

theorem typeFrames_ordinary (hs : i.opcode.signature = [.var, .symb]) :
    Ordinary (i.typeFrames fs) := by
  refine (place_ordinary hi fs (by rw [hs]; rfl)).bind fun v ↦ ?_
  exact (operand_ordinary hi fs (by rw [hs]; rfl) (.inr rfl)).bind fun x ↦ .set fs v _

theorem defineFrames_ordinary (hs : i.opcode.signature = [.var]) :
    Ordinary (i.defineFrames fs) := by
  obtain ⟨v, hv⟩ := hi.var_slot (k := 0) (by rw [hs]; rfl)
  intro f h
  simp only [defineFrames, varAt, hv, Except.ok_bind] at h
  rcases Frames.define_error h with rfl | rfl <;> rfl

theorem reframe?_ordinary {F : Frames → Except Fault Frames} (hF : i.reframe? = some F) :
    Ordinary (F fs) := by
  simp only [reframe?] at hF
  split at hF
  · next ho =>
    cases hF
    exact unaryFrames_ordinary hi fs (by rw [ho]; rfl) .ok
  · cases hF
    exact .ok _
  · cases hF
    intro f h
    rw [Frames.push_error h]
    rfl
  · cases hF
    intro f h
    rw [Frames.pop_error h]
    rfl
  · next ho =>
    cases hF
    exact defineFrames_ordinary hi fs (by rw [ho]; rfl)
  · next op ho =>
    cases hF
    exact binaryFrames_ordinary hi fs (by rw [ho]; rfl) fun a b ↦ .of_typed (op.apply_typed a b)
  · next op ho =>
    cases hF
    exact unaryFrames_ordinary hi fs (by rw [ho]; rfl) fun a ↦ .of_typed (op.apply_typed a)
  · next ho =>
    cases hF
    exact binaryFrames_ordinary hi fs (by rw [ho]; rfl) fun a b ↦ .of_typed (concat_typed a b)
  · next ho =>
    cases hF
    exact unaryFrames_ordinary hi fs (by rw [ho]; rfl) fun a ↦ .of_typed (strlen_typed a)
  · next ho =>
    cases hF
    exact binaryFrames_ordinary hi fs (by rw [ho]; rfl) fun a b ↦ .of_typed (getChar_typed a b)
  · next ho =>
    cases hF
    exact setCharFrames_ordinary hi fs (by rw [ho]; rfl)
  · next ho =>
    cases hF
    exact typeFrames_ordinary hi fs (by rw [ho]; rfl)
  · cases hF

end Instruction

namespace Effect

variable {α β : Type} {m : Machine}

/-- From a machine, an effect raises no other fault than an ordinary one. -/
def OrdinaryAt (x : Effect α) (m : Machine) : Prop :=
  ∀ f m', x m = .error f m' → f.ordinary = true

namespace OrdinaryAt

theorem pure (a : α) : OrdinaryAt (Pure.pure a) m := fun _ _ h ↦ by cases h

theorem bind {x : Effect α} {g : α → Effect β} (hx : OrdinaryAt x m)
    (hg : ∀ a m', OrdinaryAt (g a) m') : OrdinaryAt (x >>= g) m := by
  intro f m' h
  rcases bind_error.1 h with h | ⟨a, m₁, -, h⟩
  · exact hx f m' h
  · exact hg a m₁ f m' h

theorem consult {r : Machine → Except Fault α} (h : Ordinary (r m)) :
    OrdinaryAt (Effect.consult r) m := fun f _ hf ↦ h f (consult_error.1 hf).1

theorem attempt {r : Except Fault α} (h : Ordinary r) : OrdinaryAt (Effect.attempt r) m :=
  OrdinaryAt.consult h

theorem reading_bind {r : Frames → Except Fault α} {g : α → Effect β}
    (hr : Ordinary (r m.frames)) (hg : ∀ a, r m.frames = .ok a → OrdinaryAt (g a) m) :
    OrdinaryAt (reading r >>= g) m := by
  intro f m' h
  rw [reading, consult_bind_apply] at h
  cases ha : r m.frames with
  | ok a =>
    rw [ha] at h
    exact hg a ha f m' h
  | error e =>
    rw [ha] at h
    cases h
    exact hr _ ha

theorem changeFrames {F : Frames → Except Fault Frames} (h : Ordinary (F m.frames)) :
    OrdinaryAt (Effect.changeFrames F) m := by
  intro f m' hf
  rw [changeFrames_apply] at hf
  cases hF : F m.frames with
  | ok fs =>
    rw [hF] at hf
    cases hf
  | error e =>
    rw [hF] at hf
    cases hf
    exact h _ hF

theorem push (x : Value) : OrdinaryAt (Effect.push x) m := fun _ _ h ↦ by cases h

theorem pop : OrdinaryAt Effect.pop m := by
  intro f m' h
  rw [pop_apply] at h
  split at h
  · cases h
  · cases h
    rfl

theorem popCall : OrdinaryAt Effect.popCall m := by
  intro f m' h
  rw [popCall_apply] at h
  split at h
  · cases h
  · cases h
    rfl

end OrdinaryAt

end Effect

namespace Instruction

variable {i : Instruction} {m m' : Machine} {f : Fault}

theorem branch_ordinary (c : Condition) (n : Nat) (a b : Value) :
    OrdinaryAt (branch c n a b) m :=
  (OrdinaryAt.attempt (.of_typed (c.holds_typed a b))).bind fun _ _ ↦ .pure _

theorem applyRead_ordinary (hi : i.WellFormed) (hs : i.opcode.signature = [.var, .type]) :
    OrdinaryAt i.applyRead m := by
  obtain ⟨name, t, ha, ht⟩ := hi.type_slot (k := 1) (by rw [hs]; rfl)
  simp only [applyRead, destination_eq, typeName_eq, readType, ha]
  refine .reading_bind (place_ordinary hi m.frames (by rw [hs]; rfl)) fun v _ ↦ ?_
  refine .reading_bind (.ok name) fun _ h ↦ ?_
  cases h
  refine .bind (fun f m' h ↦ by cases h) fun line m₁ ↦ ?_
  simp only [Value.ofLine, ht]
  exact (OrdinaryAt.attempt (.ok _)).bind fun x m₂ ↦ .changeFrames (.set _ v x)

theorem target_ordinary (hi : i.WellFormed) (ho : i.opcode.referencesLabel = true)
    (ht : m.labels.unresolved? i = none) : OrdinaryAt i.target m := by
  rw [target_eq]
  obtain ⟨n, hn⟩ := hi.goal_ok ho ht
  exact .consult (by rw [hn]; exact .ok n)

theorem definedSymbol_ordinary (hi : i.WellFormed) {k : Nat}
    (hk : i.opcode.signature[k]? = some .symb) : OrdinaryAt (i.definedSymbol k) m := by
  rw [definedSymbol_eq]
  exact .consult (definedOperand_ordinary hi m.frames hk)

theorem print_error (hi : i.WellFormed) (hk : i.opcode.signature[0]? = some .symb)
    {print : String → Effect Bool} (sink : Sink) (record : Sink → Machine)
    (hp : ∀ text, print text m = .ok (sink.write text).2 (record (sink.write text).1))
    (h : (do
      let x ← i.definedSymbol 0
      require (← print x.display) .output
      return Flow.next : Effect Flow) m = .error f m') :
    f.ordinary = true ∨
      f = .output ∧ ∃ x, i.operand m.frames 0 = .ok x ∧ (sink.write x.display).2 = false := by
  rcases bind_error.1 h with hx | ⟨x, m₁, hx, hr⟩
  · exact .inl (definedSymbol_ordinary hi hk f m' hx)
  · rw [definedSymbol_eq] at hx
    obtain ⟨hx, rfl⟩ := consult_ok.1 hx
    obtain ⟨y, hy, hx⟩ := Except.bind_eq_ok.1 hx
    obtain rfl := Value.of_present hx
    rw [bind_apply, hp] at hr
    simp only [bind_apply, require_apply] at hr
    cases hb : (sink.write y.display).2 with
    | true =>
      rw [hb] at hr
      cases hr
    | false =>
      rw [hb] at hr
      cases hr
      exact .inr ⟨rfl, y, hy, hb⟩

theorem step_ordinary (hi : i.WellFormed) (ht : m.labels.unresolved? i = none)
    (hw : i.opcode ≠ .write) (hd : i.opcode ≠ .dprint) : OrdinaryAt i.step m := by
  cases hF : i.reframe? with
  | some F =>
    rw [step_of_reframe? hF]
    exact (OrdinaryAt.changeFrames (reframe?_ordinary hi m.frames hF)).bind fun _ _ ↦ .pure _
  | none =>
    cases ho : i.opcode <;> simp only [reframe?, ho, reduceCtorEq] at hF <;> simp only [step, ho]
    case call =>
      refine (target_ordinary hi (by rw [ho]; rfl) ht).bind fun n m₁ ↦ ?_
      exact fun f m' h ↦ by cases h
    case ret => exact OrdinaryAt.popCall.bind fun n m₁ ↦ .pure _
    case pushs =>
      exact (definedSymbol_ordinary hi (by rw [ho]; rfl)).bind fun x m₁ ↦
        (OrdinaryAt.push x).bind fun _ _ ↦ .pure _
    case pops =>
      rw [destination_eq]
      refine .reading_bind (place_ordinary hi m.frames (by rw [ho]; rfl)) fun v _ ↦ ?_
      refine OrdinaryAt.pop.bind fun x m₁ ↦ ?_
      exact (OrdinaryAt.changeFrames (.set _ v x)).bind fun _ _ ↦ .pure _
    case clears => exact fun f m' h ↦ by cases h
    case read =>
      exact (applyRead_ordinary hi (by rw [ho]; rfl)).bind fun _ _ ↦ .pure _
    case write => exact absurd ho hw
    case label => exact .pure _
    case jump => exact (target_ordinary hi (by rw [ho]; rfl) ht).bind fun n m₁ ↦ .pure _
    case jumpIf c =>
      refine (target_ordinary hi (by rw [ho]; rfl) ht).bind fun n m₁ ↦ ?_
      refine (definedSymbol_ordinary hi (by rw [ho]; rfl)).bind fun a m₂ ↦ ?_
      refine (definedSymbol_ordinary hi (by rw [ho]; rfl)).bind fun b m₃ ↦ ?_
      exact branch_ordinary c n a b
    case exit =>
      refine (definedSymbol_ordinary hi (by rw [ho]; rfl)).bind fun x m₁ ↦ ?_
      exact (OrdinaryAt.attempt (.of_typed (exitCode_typed x))).bind fun _ _ ↦ .pure _
    case dprint => exact absurd ho hd
    case breakpoint => exact fun f m' h ↦ by cases h
    case binaryStack op =>
      refine OrdinaryAt.pop.bind fun b m₁ ↦ OrdinaryAt.pop.bind fun a m₂ ↦ ?_
      refine (OrdinaryAt.attempt (.of_typed (op.apply_typed a b))).bind fun x m₃ ↦ ?_
      exact (OrdinaryAt.push x).bind fun _ _ ↦ .pure _
    case unaryStack op =>
      refine OrdinaryAt.pop.bind fun a m₁ ↦ ?_
      refine (OrdinaryAt.attempt (.of_typed (op.apply_typed a))).bind fun x m₂ ↦ ?_
      exact (OrdinaryAt.push x).bind fun _ _ ↦ .pure _
    case jumpIfStack c =>
      refine (target_ordinary hi (by rw [ho]; rfl) ht).bind fun n m₁ ↦ ?_
      exact OrdinaryAt.pop.bind fun b m₂ ↦ OrdinaryAt.pop.bind fun a m₃ ↦ branch_ordinary c n a b

/-- The instruction prints its operand, and the stream does not take all of the text. -/
def Refused (i : Instruction) (m : Machine) : Prop :=
  ∃ x, i.operand m.frames 0 = .ok x ∧
    (i.opcode = .write ∧ (m.output.write x.display).2 = false ∨
      i.opcode = .dprint ∧ (m.diagnostics.write x.display).2 = false)

theorem step_error (hi : i.WellFormed) (ht : m.labels.unresolved? i = none)
    (h : i.step m = .error f m') : f.ordinary = true ∨ f = .output ∧ i.Refused m := by
  by_cases hw : i.opcode = .write
  · simp only [step, hw] at h
    have hp := print_error hi (by rw [hw]; rfl) m.output ({ m with output := · })
      (printOutput_apply · m) h
    rcases hp with hf | ⟨hf, x, hx, hr⟩
    · exact .inl hf
    · exact .inr ⟨hf, x, hx, .inl ⟨hw, hr⟩⟩
  · by_cases hd : i.opcode = .dprint
    · simp only [step, hd] at h
      have hp := print_error hi (by rw [hd]; rfl) m.diagnostics ({ m with diagnostics := · })
        (printDiagnostics_apply · m) h
      rcases hp with hf | ⟨hf, x, hx, hr⟩
      · exact .inl hf
      · exact .inr ⟨hf, x, hx, .inr ⟨hd, hr⟩⟩
    · exact .inl (step_ordinary hi ht hw hd f m' h)

end Instruction

end ThreeAddress
