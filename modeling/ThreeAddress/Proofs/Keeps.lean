import ThreeAddress.Proofs.Step

namespace ThreeAddress

namespace Effect

variable {α β γ : Type}

def after (x : Effect α) (m : Machine) : Machine :=
  match x m with
  | .ok _ m' => m'
  | .error _ m' => m'

theorem after_of_ok {x : Effect α} {a : α} {m m' : Machine} (h : x m = .ok a m') :
    x.after m = m' := by
  simp only [after, h]

theorem after_of_error {x : Effect α} {f : Fault} {m m' : Machine} (h : x m = .error f m') :
    x.after m = m' := by
  simp only [after, h]

/-- An effect does not change the part `g` of the machine, whether or not it faults. -/
def Keeps (g : Machine → γ) (x : Effect α) : Prop := ∀ m, g (x.after m) = g m

namespace Keeps

variable {g : Machine → γ}

theorem pure (a : α) : Keeps g (Pure.pure a) := fun _ ↦ rfl

theorem bind {x : Effect α} {y : α → Effect β} (hx : Keeps g x) (hy : ∀ a, Keeps g (y a)) :
    Keeps g (x >>= y) := by
  intro m
  have hm := hx m
  cases h : x m with
  | ok a m₁ =>
    rw [after_of_ok h] at hm
    have hb : (x >>= y).after m = (y a).after m₁ := by simp only [after, bind_apply, h]
    rw [hb, hy a m₁, hm]
  | error f m₁ =>
    rw [after_of_error h] at hm
    have hb : (x >>= y).after m = m₁ := by simp only [after, bind_apply, h]
    rw [hb, hm]

theorem consult (r : Machine → Except Fault α) : Keeps g (Effect.consult r) := by
  intro m
  cases h : r m <;> simp only [after, Effect.consult, h, attempt_ok, attempt_error]

theorem reading (r : Frames → Except Fault α) : Keeps g (Effect.reading r) := consult _

theorem attempt (r : Except Fault α) : Keeps g (Effect.attempt r) := consult fun _ ↦ r

theorem get : Keeps g (MonadState.get : Effect Machine) := fun _ ↦ rfl

theorem require (b : Bool) (f : Fault) : Keeps g (Effect.require b f) := by
  intro m
  cases b <;> rfl

theorem changeFrames (hg : ∀ m fs, g { m with frames := fs } = g m)
    (F : Frames → Except Fault Frames) : Keeps g (Effect.changeFrames F) := by
  intro m
  cases h : F m.frames with
  | ok fs => simp only [after, changeFrames_apply, h, hg]
  | error f => simp only [after, changeFrames_apply, h]

theorem push (hg : ∀ m l, g { m with operands := l } = g m) (x : Value) :
    Keeps g (Effect.push x) := fun m ↦ hg m _

theorem clear (hg : ∀ m l, g { m with operands := l } = g m) : Keeps g Effect.clear :=
  fun m ↦ hg m _

theorem pop (hg : ∀ m l, g { m with operands := l } = g m) : Keeps g Effect.pop := by
  intro m
  cases h : m.operands with
  | nil => simp only [after, pop_apply, h]
  | cons x r => simp only [after, pop_apply, h, hg]

theorem pushCall (hg : ∀ m l, g { m with calls := l } = g m) (n : Nat) :
    Keeps g (Effect.pushCall n) := fun m ↦ hg m _

theorem popCall (hg : ∀ m l, g { m with calls := l } = g m) : Keeps g Effect.popCall := by
  intro m
  cases h : m.calls with
  | nil => simp only [after, popCall_apply, h]
  | cons n r => simp only [after, popCall_apply, h, hg]

theorem readLine (hg : ∀ m l, g { m with input := l } = g m) : Keeps g Effect.readLine :=
  fun m ↦ hg m _

theorem printOutput (hg : ∀ m s, g { m with output := s } = g m) (text : String) :
    Keeps g (Effect.printOutput text) := fun m ↦ hg m _

theorem printDiagnostics (hg : ∀ m s, g { m with diagnostics := s } = g m) (text : String) :
    Keeps g (Effect.printDiagnostics text) := fun m ↦ hg m _

end Keeps

end Effect

open Effect

/-- What only the flow of control changes, after a step. -/
def Machine.control (m : Machine) : Program × Labels × Nat × Nat :=
  (m.program, m.labels, m.pc, m.executed)

namespace Instruction

variable (i : Instruction)

theorem definedSymbol_keeps {γ : Type} {g : Machine → γ} (k : Nat) :
    Keeps g (i.definedSymbol k) := by
  rw [definedSymbol_eq]
  exact .reading _

theorem target_keeps {γ : Type} {g : Machine → γ} : Keeps g i.target := by
  rw [target_eq]
  exact .consult _

theorem branch_keeps {γ : Type} {g : Machine → γ} (c : Condition) (n : Nat) (a b : Value) :
    Keeps g (branch c n a b) := (Keeps.attempt _).bind fun _ ↦ .pure _

theorem applyRead_control : Keeps Machine.control i.applyRead := by
  simp only [applyRead, destination_eq, typeName_eq]
  refine (Keeps.reading _).bind fun v ↦ (Keeps.reading _).bind fun t ↦ ?_
  refine (Keeps.readLine fun _ _ ↦ rfl).bind fun line ↦ (Keeps.attempt _).bind fun x ↦ ?_
  exact .changeFrames (fun _ _ ↦ rfl) _

theorem step_control : Keeps Machine.control i.step := by
  cases hF : i.reframe? with
  | some F =>
    rw [step_of_reframe? hF]
    exact (Keeps.changeFrames (fun _ _ ↦ rfl) F).bind fun _ ↦ .pure _
  | none =>
    cases ho : i.opcode <;> simp only [reframe?, ho, reduceCtorEq] at hF <;> simp only [step, ho]
    case call =>
      refine i.target_keeps.bind fun n ↦ Keeps.get.bind fun m ↦ ?_
      exact (Keeps.pushCall (fun _ _ ↦ rfl) _).bind fun _ ↦ .pure _
    case ret => exact (Keeps.popCall fun _ _ ↦ rfl).bind fun _ ↦ .pure _
    case pushs =>
      refine (i.definedSymbol_keeps 0).bind fun x ↦ ?_
      exact (Keeps.push (fun _ _ ↦ rfl) x).bind fun _ ↦ .pure _
    case pops =>
      rw [destination_eq]
      refine (Keeps.reading _).bind fun v ↦ (Keeps.pop fun _ _ ↦ rfl).bind fun x ↦ ?_
      exact (Keeps.changeFrames (fun _ _ ↦ rfl) _).bind fun _ ↦ .pure _
    case clears => exact (Keeps.clear fun _ _ ↦ rfl).bind fun _ ↦ .pure _
    case read => exact i.applyRead_control.bind fun _ ↦ .pure _
    case write =>
      refine (i.definedSymbol_keeps 0).bind fun x ↦ ?_
      refine (Keeps.printOutput (fun _ _ ↦ rfl) _).bind fun b ↦ ?_
      exact (Keeps.require _ _).bind fun _ ↦ .pure _
    case label => exact .pure _
    case jump => exact i.target_keeps.bind fun _ ↦ .pure _
    case jumpIf c =>
      refine i.target_keeps.bind fun n ↦ (i.definedSymbol_keeps 1).bind fun a ↦ ?_
      exact (i.definedSymbol_keeps 2).bind fun b ↦ branch_keeps c n a b
    case exit =>
      exact (i.definedSymbol_keeps 0).bind fun x ↦ (Keeps.attempt _).bind fun _ ↦ .pure _
    case dprint =>
      refine (i.definedSymbol_keeps 0).bind fun x ↦ ?_
      refine (Keeps.printDiagnostics (fun _ _ ↦ rfl) _).bind fun b ↦ ?_
      exact (Keeps.require _ _).bind fun _ ↦ .pure _
    case breakpoint =>
      refine Keeps.get.bind fun m ↦ ?_
      exact (Keeps.printDiagnostics (fun _ _ ↦ rfl) _).bind fun _ ↦ .pure _
    case binaryStack op =>
      refine (Keeps.pop fun _ _ ↦ rfl).bind fun b ↦ (Keeps.pop fun _ _ ↦ rfl).bind fun a ↦ ?_
      refine (Keeps.attempt _).bind fun x ↦ ?_
      exact (Keeps.push (fun _ _ ↦ rfl) x).bind fun _ ↦ .pure _
    case unaryStack op =>
      refine (Keeps.pop fun _ _ ↦ rfl).bind fun a ↦ (Keeps.attempt _).bind fun x ↦ ?_
      exact (Keeps.push (fun _ _ ↦ rfl) x).bind fun _ ↦ .pure _
    case jumpIfStack c =>
      refine i.target_keeps.bind fun n ↦ (Keeps.pop fun _ _ ↦ rfl).bind fun b ↦ ?_
      exact (Keeps.pop fun _ _ ↦ rfl).bind fun a ↦ branch_keeps c n a b

end Instruction

end ThreeAddress
