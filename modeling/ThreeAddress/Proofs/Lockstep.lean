import ThreeAddress.Proofs.Renaming
import ThreeAddress.Proofs.Session

namespace ThreeAddress

/-- The machine with another program, other names of its labels and another stream for its
diagnostics. -/
def Machine.recast (p : Program) (g : String → String) (d : Sink) (m : Machine) : Machine :=
  { m with program := p, labels := m.labels.rename g, diagnostics := d }

variable {p p' : Program} {f : Nat → Nat} {g : String → String} {d : Sink}

namespace Effect

variable {α β : Type}

def recastResult (p : Program) (g : String → String) (d : Sink) :
    EStateM.Result Fault Machine α → EStateM.Result Fault Machine α
  | .ok a m => .ok a (m.recast p g d)
  | .error e m => .error (e.rename g) (m.recast p g d)

/-- What `x` does to a machine, `x'` does to the recast one. -/
def Recasts (p : Program) (g : String → String) (d : Sink) (x x' : Effect α) : Prop :=
  ∀ m, x' (m.recast p g d) = recastResult p g d (x m)

namespace Recasts

theorem pure (a : α) : Recasts p g d (Pure.pure a) (Pure.pure a) := fun _ ↦ rfl

theorem bind {x x' : Effect α} {y y' : α → Effect β} (hx : Recasts p g d x x')
    (hy : ∀ a, Recasts p g d (y a) (y' a)) : Recasts p g d (x >>= y) (x' >>= y') := by
  intro m
  rw [bind_apply, bind_apply, hx m]
  cases x m with
  | ok a m₁ => exact hy a m₁
  | error e m₁ => rfl

theorem consult {r r' : Machine → Except Fault α}
    (h : ∀ m, r' (m.recast p g d) = (r m).mapError (·.rename g)) :
    Recasts p g d (Effect.consult r) (Effect.consult r') := by
  intro m
  simp only [Effect.consult, h m]
  cases r m <;> rfl

theorem reading {r : Frames → Except Fault α} (h : ∀ fs, Unlabelled (r fs)) :
    Recasts p g d (Effect.reading r) (Effect.reading r) :=
  consult fun m ↦ ((h m.frames).mapError g).symm

theorem attempt {r : Except Fault α} (h : Unlabelled r) :
    Recasts p g d (Effect.attempt r) (Effect.attempt r) := reading fun _ ↦ h

theorem changeFrames {F : Frames → Except Fault Frames} (h : ∀ fs, Unlabelled (F fs)) :
    Recasts p g d (Effect.changeFrames F) (Effect.changeFrames F) := by
  intro m
  have hf : (m.recast p g d).frames = m.frames := rfl
  rw [changeFrames_apply, changeFrames_apply, hf]
  cases hF : F m.frames with
  | ok fs => rfl
  | error e => simp only [recastResult, h m.frames e hF g]

theorem push (x : Value) : Recasts p g d (Effect.push x) (Effect.push x) := fun _ ↦ rfl

theorem pop : Recasts p g d Effect.pop Effect.pop := by
  intro m
  have ho : (m.recast p g d).operands = m.operands := rfl
  rw [pop_apply, pop_apply, ho]
  cases m.operands <;> rfl

theorem clear : Recasts p g d Effect.clear Effect.clear := fun _ ↦ rfl

theorem popCall : Recasts p g d Effect.popCall Effect.popCall := by
  intro m
  have hc : (m.recast p g d).calls = m.calls := rfl
  rw [popCall_apply, popCall_apply, hc]
  cases m.calls <;> rfl

theorem readLine : Recasts p g d Effect.readLine Effect.readLine := fun _ ↦ rfl

theorem printOutput (text : String) :
    Recasts p g d (Effect.printOutput text) (Effect.printOutput text) := fun _ ↦ rfl

theorem require {e : Fault} (he : e.rename g = e) (b : Bool) :
    Recasts p g d (Effect.require b e) (Effect.require b e) := by
  intro m
  rw [require_apply, require_apply]
  cases b with
  | true => rfl
  | false => simp only [Bool.false_eq_true, ↓reduceIte, recastResult, he]

end Recasts

end Effect

open Effect

namespace Instruction

variable {i : Instruction} {m : Machine}

theorem definedSymbol_recasts (i : Instruction) (k : Nat) :
    Recasts p g d (i.definedSymbol k) ((i.rename f g).definedSymbol k) := by
  rw [definedSymbol_eq, definedSymbol_eq]
  simp only [operand_rename]
  exact .reading fun fs ↦ i.held_unlabelled fs k

theorem destination_recasts (i : Instruction) (k : Nat) :
    Recasts p g d (i.destination k) ((i.rename f g).destination k) := by
  rw [destination_eq, destination_eq]
  simp only [place_rename]
  exact .reading fun fs ↦ i.place_unlabelled fs k

theorem typeName_recasts (i : Instruction) (k : Nat) :
    Recasts p g d (i.typeName k) ((i.rename f g).typeName k) := by
  rw [typeName_eq, typeName_eq, readType_rename]
  exact .reading fun _ ↦ i.readType_unlabelled k

theorem target_recasts (hg : g.Injective) (i : Instruction) :
    Recasts p g d i.target (i.rename f g).target := by
  rw [target_eq, target_eq]
  exact .consult fun m ↦ i.goal_rename f g hg m.labels

theorem branch_recasts (c : Condition) (n : Nat) (a b : Value) :
    Recasts p g d (branch c n a b) (branch c n a b) :=
  (Recasts.attempt (.of_typed (c.holds_typed a b))).bind fun _ ↦ .pure _

theorem applyRead_recasts (i : Instruction) :
    Recasts p g d i.applyRead (i.rename f g).applyRead := by
  refine (i.destination_recasts 0).bind fun v ↦ (i.typeName_recasts 1).bind fun type ↦ ?_
  refine Recasts.readLine.bind fun line ↦ (Recasts.attempt ?_).bind fun x ↦ ?_
  · intro e he g
    rw [(Value.ofLine_error he).2]
    rfl
  · exact .changeFrames fun fs ↦ .set fs v x

/-- No instruction looks at an order, and the name of a label leads only to its target. -/
theorem step_recasts (hg : g.Injective) (hd : i.opcode ≠ .dprint) (hb : i.opcode ≠ .breakpoint) :
    Recasts p g d i.step (i.rename f g).step := by
  cases hF : i.reframe? with
  | some F =>
    have hF' : (i.rename f g).reframe? = some F := (i.reframe?_rename f g).trans hF
    rw [step_of_reframe? hF, step_of_reframe? hF']
    exact (Recasts.changeFrames fun fs ↦ reframe?_unlabelled fs hF).bind fun _ ↦ .pure _
  | none =>
    have ho' : (i.rename f g).opcode = i.opcode := rfl
    cases ho : i.opcode <;> simp only [reframe?, ho, reduceCtorEq] at hF <;>
      simp only [step, ho', ho]
    case call => exact (i.target_recasts hg).bind fun n m ↦ rfl
    case ret => exact Recasts.popCall.bind fun n ↦ .pure _
    case pushs =>
      refine (i.definedSymbol_recasts 0).bind fun x ↦ ?_
      exact (Recasts.push x).bind fun _ ↦ .pure _
    case pops =>
      refine (i.destination_recasts 0).bind fun v ↦ Recasts.pop.bind fun x ↦ ?_
      exact (Recasts.changeFrames fun fs ↦ .set fs v x).bind fun _ ↦ .pure _
    case clears => exact Recasts.clear.bind fun _ ↦ .pure _
    case read => exact i.applyRead_recasts.bind fun _ ↦ .pure _
    case write =>
      refine (i.definedSymbol_recasts 0).bind fun x ↦ (Recasts.printOutput x.display).bind fun b ↦ ?_
      exact (Recasts.require rfl b).bind fun _ ↦ .pure _
    case label => exact .pure _
    case jump => exact (i.target_recasts hg).bind fun n ↦ .pure _
    case jumpIf c =>
      refine (i.target_recasts hg).bind fun n ↦ (i.definedSymbol_recasts 1).bind fun a ↦ ?_
      exact (i.definedSymbol_recasts 2).bind fun b ↦ branch_recasts c n a b
    case exit =>
      refine (i.definedSymbol_recasts 0).bind fun x ↦ ?_
      exact (Recasts.attempt (.of_typed (exitCode_typed x))).bind fun _ ↦ .pure _
    case dprint => exact absurd ho hd
    case breakpoint => exact absurd ho hb
    case binaryStack op =>
      refine Recasts.pop.bind fun b ↦ Recasts.pop.bind fun a ↦ ?_
      refine (Recasts.attempt (.of_typed (op.apply_typed a b))).bind fun x ↦ ?_
      exact (Recasts.push x).bind fun _ ↦ .pure _
    case unaryStack op =>
      refine Recasts.pop.bind fun a ↦ ?_
      refine (Recasts.attempt (.of_typed (op.apply_typed a))).bind fun x ↦ ?_
      exact (Recasts.push x).bind fun _ ↦ .pure _
    case jumpIfStack c =>
      refine (i.target_recasts hg).bind fun n ↦ Recasts.pop.bind fun b ↦ Recasts.pop.bind fun a ↦ ?_
      exact branch_recasts c n a b

theorem step_dprint_held {x : Value} (ho : i.opcode = .dprint) (hx : i.held m.frames 0 = .ok x) :
    i.step m =
      if (m.diagnostics.write x.display).2 then
        .ok .next { m with diagnostics := (m.diagnostics.write x.display).1 }
      else .error .output { m with diagnostics := (m.diagnostics.write x.display).1 } := by
  simp only [step_dprint ho, printed, hx]

theorem step_diagnostics (hd : i.opcode ≠ .dprint) (hb : i.opcode ≠ .breakpoint) :
    (i.step.after m).diagnostics = m.diagnostics := by
  cases hs : i.step m with
  | ok flow m' =>
    rw [after_of_ok hs]
    cases Completes.of_step hs with
    | dprint ho => exact absurd ho hd
    | breakpoint ho => exact absurd ho hb
    | _ => rfl
  | error e m' =>
    rw [after_of_error hs]
    cases Fails.of_step hs with
    | dprint ho => exact absurd ho hd
    | _ => rfl

end Instruction

namespace Machine

/-- Two machines agree on all that a program can see, and on what it has written. -/
structure Agrees (m m' : Machine) : Prop where
  frames : m'.frames = m.frames
  operands : m'.operands = m.operands
  calls : m'.calls = m.calls
  pc : m'.pc = m.pc
  executed : m'.executed = m.executed
  input : m'.input = m.input
  output : m'.output = m.output

/-- The next instruction prints a diagnostic text that the machine's own stream takes in as a whole
and the stream `d` does not, or the other way round. -/
def Parts (m : Machine) (d : Sink) : Prop :=
  ∃ i x, m.instruction? = some i ∧ i.opcode = .dprint ∧ i.held m.frames 0 = .ok x ∧
    (d.write x.display).2 ≠ (m.diagnostics.write x.display).2

variable {m m₁ : Machine} {i : Instruction}

theorem agrees_recast (p : Program) (g : String → String) (d : Sink) (m : Machine) :
    m.Agrees (m.recast p g d) := ⟨rfl, rfl, rfl, rfl, rfl, rfl, rfl⟩

theorem follow_recast (flow : Flow) :
    (m.recast p g d).follow flow = ((m.follow flow).1.recast p g d, (m.follow flow).2) := by
  cases flow <;> rfl

theorem follow_diagnostics (flow : Flow) : (m.follow flow).1.diagnostics = m.diagnostics := by
  cases flow <;> rfl

end Machine

/-- The program `p'` is `p` with other orders and labels, and what both give to their diagnostic
streams keeps the streams in the relation `S`. -/
structure Lockstep (p p' : Program) (f : Nat → Nat) (g : String → String)
    (S : Sink → Sink → Prop) : Prop where
  injective : g.Injective
  instructions : p'.instructions = p.instructions.map (·.rename f g)
  write : ∀ s d text, S s d → S (s.write text).1 (d.write text).1
  report : ∀ i ∈ p.instructions, i.opcode = .breakpoint → ∀ (m : Machine) d, m.program = p →
    S m.diagnostics d → S (m.diagnostics.write m.report).1 (d.write (m.recast p' g d).report).1

namespace Lockstep

open Machine

/-- The instruction does the same in both programs, but for the diagnostics. -/
def StepsTogether (p' : Program) (f : Nat → Nat) (g : String → String) (S : Sink → Sink → Prop)
    (i : Instruction) (m : Machine) (d : Sink) : Prop :=
  ∃ d', (i.rename f g).step (m.recast p' g d) = recastResult p' g d' (i.step m) ∧
    S (i.step.after m).diagnostics d'

/-- Two results of running are the same, but for the diagnostics. -/
def Together (p' : Program) (f : Nat → Nat) (g : String → String) (S : Sink → Sink → Prop)
    (r r' : Machine × Option Outcome) : Prop :=
  ∃ d, r' = (r.1.recast p' g d, r.2.map (·.rename f g)) ∧ S r.1.diagnostics d

/-- The machines are still the same, but their streams are about to part. -/
def Parting (p p' : Program) (g : String → String) (S : Sink → Sink → Prop)
    (r r' : Machine × Option Outcome) : Prop :=
  ∃ m d, r = (m, none) ∧ r' = (m.recast p' g d, none) ∧ m.program = p ∧ S m.diagnostics d ∧
    m.Parts d

variable {S : Sink → Sink → Prop} {m : Machine} {i : Instruction} {n : Nat}

theorem instruction?_recast (h : Lockstep p p' f g S) (hp : m.program = p) :
    (m.recast p' g d).instruction? = m.instruction?.map (·.rename f g) := by
  simp only [instruction?, recast, h.instructions, hp, List.getElem?_map]

theorem dprint (h : Lockstep p p' f g S) (hd : S m.diagnostics d) (ho : i.opcode = .dprint)
    (hi : m.instruction? = some i) (hn : ¬ m.Parts d) :
    StepsTogether p' f g S i m d := by
  have ho' : (i.rename f g).opcode = .dprint := ho
  have hh : (i.rename f g).held (m.recast p' g d).frames 0 = i.held m.frames 0 :=
    i.held_rename f g m.frames 0
  cases hx : i.held m.frames 0 with
  | error e =>
    -- Nothing is printed, and the streams stay as they are.
    have hs : i.step m = .error e m := by
      simp only [Instruction.step_dprint ho, Instruction.printed, hx]
    refine ⟨d, ?_, by rwa [after_of_error hs]⟩
    simp only [hs, Instruction.step_dprint ho', Instruction.printed, hh, hx, recastResult,
      i.held_unlabelled m.frames 0 e hx g]
  | ok x =>
    have hb : (d.write x.display).2 = (m.diagnostics.write x.display).2 :=
      not_not.1 fun hb ↦ hn ⟨i, x, hi, ho, hx, hb⟩
    have hs := Instruction.step_dprint_held ho hx
    have hs' := Instruction.step_dprint_held (m := m.recast p' g d) ho' (hh.trans hx)
    have hd' : (m.recast p' g d).diagnostics = d := rfl
    refine ⟨(d.write x.display).1, ?_, ?_⟩
    · rw [hs, hs', hd', hb]
      cases (m.diagnostics.write x.display).2 <;> rfl
    · have ha : (i.step.after m).diagnostics = (m.diagnostics.write x.display).1 := by
        rw [after, hs]
        cases (m.diagnostics.write x.display).2 <;> rfl
      rw [ha]
      exact h.write _ _ _ hd

theorem breakpoint (h : Lockstep p p' f g S) (hp : m.program = p) (hd : S m.diagnostics d)
    (hi : m.instruction? = some i) (ho : i.opcode = .breakpoint) :
    StepsTogether p' f g S i m d := by
  have ho' : (i.rename f g).opcode = .breakpoint := ho
  have hs := (Instruction.Completes.breakpoint (m := m) ho).step
  have hs' := (Instruction.Completes.breakpoint (m := m.recast p' g d) ho').step
  refine ⟨(d.write (m.recast p' g d).report).1, ?_, ?_⟩
  · rw [hs, hs']
    rfl
  · rw [after_of_ok hs]
    have him : i ∈ p.instructions := hp ▸ List.mem_of_getElem? hi
    exact h.report i him ho m d hp hd

theorem step (h : Lockstep p p' f g S) (hp : m.program = p) (hd : S m.diagnostics d)
    (hi : m.instruction? = some i) (hn : ¬ m.Parts d) :
    StepsTogether p' f g S i m d := by
  by_cases hdp : i.opcode = .dprint
  · exact h.dprint hd hdp hi hn
  · by_cases hbp : i.opcode = .breakpoint
    · exact h.breakpoint hp hd hi hbp
    · refine ⟨d, Instruction.step_recasts h.injective hdp hbp m, ?_⟩
      rwa [Instruction.step_diagnostics hdp hbp]

theorem advance (h : Lockstep p p' f g S) (hp : m.program = p) (hd : S m.diagnostics d)
    (hn : ¬ m.Parts d) : Together p' f g S m.advance (m.recast p' g d).advance := by
  have hr := h.instruction?_recast (d := d) hp
  cases hi : m.instruction? with
  | none =>
    rw [hi] at hr
    refine ⟨d, ?_, ?_⟩
    · simp only [Machine.advance, hi, hr, Option.map_none]
      rfl
    · simpa only [Machine.advance, hi] using hd
  | some i =>
    rw [hi] at hr
    obtain ⟨d', hs', hd'⟩ := h.step hp hd hi hn
    refine ⟨d', ?_, ?_⟩
    · cases hs : i.step m with
      | ok flow m₁ =>
        rw [hs] at hs'
        rw [advance_of_ok hi hs, advance_of_ok hr hs', follow_recast]
        cases flow <;> rfl
      | error e m₁ =>
        rw [hs] at hs'
        rw [advance_of_error hi hs, advance_of_error hr hs']
        rfl
    · cases hs : i.step m with
      | ok flow m₁ =>
        rw [after_of_ok hs] at hd'
        rwa [advance_of_ok hi hs, follow_diagnostics]
      | error e m₁ =>
        rw [after_of_error hs] at hd'
        rwa [advance_of_error hi hs]

/-- Two programs run as one, until a diagnostic text is refused by one of the streams alone. -/
theorem run (h : Lockstep p p' f g S) (hp : m.program = p) (hd : S m.diagnostics d) (n : Nat) :
    Together p' f g S (m.run n) ((m.recast p' g d).run n) ∨
      ∃ k < n, Parting p p' g S (m.run k) ((m.recast p' g d).run k) := by
  induction n generalizing m d with
  | zero => exact .inl ⟨d, rfl, hd⟩
  | succ n ih =>
    by_cases hn : m.Parts d
    · exact .inr ⟨0, Nat.succ_pos n, m, d, rfl, rfl, hp, hd, hn⟩
    · obtain ⟨d', ha', hd'⟩ := h.advance hp hd hn
      have hp' : m.advance.1.program = p := (advance_program_labels m).1.trans hp
      cases ha : m.advance with
      | mk m₁ o =>
        rw [ha] at ha' hd' hp'
        cases o with
        | some o =>
          rw [Option.map_some] at ha'
          simp only [Machine.run, ha, ha']
          exact .inl ⟨d', rfl, hd'⟩
        | none =>
          rw [Option.map_none] at ha'
          have hr : m.run (n + 1) = m₁.run n := by simp only [Machine.run, ha]
          have hr' : (m.recast p' g d).run (n + 1) = (m₁.recast p' g d').run n := by
            simp only [Machine.run, ha']
          rw [hr, hr']
          -- `S` holds of the streams again, so that the rest of the run can start from here.
          rcases ih hp' hd' with ht | ⟨k, hk, ht⟩
          · exact .inl ht
          · refine .inr ⟨k + 1, Nat.succ_lt_succ hk, ?_⟩
            simpa only [Machine.run, ha, ha'] using ht

theorem start_recast (h : Lockstep p p' f g S) (hp : m.program = p) :
    (m.recast p' g d).start =
      (m.start.mapError (·.rename f g)).map (·.recast p' g d) := by
  have hr : Labels.resolve (m.recast p' g d).program =
      ((Labels.resolve m.program).mapError (·.rename f g)).map (·.rename g) := by
    rw [hp]
    exact Labels.resolve_rename h.injective h.instructions
  simp only [start, hr]
  cases Labels.resolve m.program <;> rfl

theorem execute (h : Lockstep p p' f g S) (hp : m.program = p) (hd : S m.diagnostics d) (n : Nat) :
    Together p' f g S (m.execute n) ((m.recast p' g d).execute n) ∨
      ∃ k < n, Parting p p' g S (m.execute k) ((m.recast p' g d).execute k) := by
  have hr := h.start_recast (d := d) hp
  cases hs : m.start with
  | error e =>
    rw [hs] at hr
    refine .inl ⟨d, ?_, ?_⟩
    · simp only [Machine.execute, hs, hr, Except.mapError, Except.map]
      rfl
    · simpa only [Machine.execute, hs] using hd
  | ok m₁ =>
    rw [hs] at hr
    obtain ⟨t, -, hm₁⟩ := start_ok hs
    have hp₁ : m₁.program = p := by rwa [hm₁]
    have hd₁ : S m₁.diagnostics d := by rwa [hm₁]
    simp only [Machine.execute, hs, hr, Except.mapError, Except.map]
    exact h.run hp₁ hd₁ n

end Lockstep

end ThreeAddress
