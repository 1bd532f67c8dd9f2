import ThreeAddress.Proofs.Handlers
import ThreeAddress.Proofs.Session

namespace ThreeAddress

open Effect

namespace Machine

variable {m m' n : Machine} {i : Instruction} {k : Nat} {α : Type}

/-- The next instructions have these opcodes and arguments. -/
def Ahead (m : Machine) (code : List (Opcode × List Argument)) : Prop :=
  code <+: (m.program.instructions.drop m.pc).map fun i ↦ (i.opcode, i.arguments)

namespace Ahead

variable {opcode : Opcode} {arguments : List Argument} {code : List (Opcode × List Argument)}

theorem head (h : m.Ahead ((opcode, arguments) :: code)) :
    ∃ i, m.instruction? = some i ∧ i.opcode = opcode ∧ i.arguments = arguments := by
  obtain ⟨rest, hrest⟩ := h
  cases hd : m.program.instructions.drop m.pc with
  | nil => simp only [hd, List.map_nil, List.cons_append, reduceCtorEq] at hrest
  | cons i l =>
    simp only [hd, List.map_cons, List.cons_append, List.cons.injEq, Prod.mk.injEq] at hrest
    refine ⟨i, ?_, hrest.1.1.symm, hrest.1.2.symm⟩
    have hi := List.head?_drop (l := m.program.instructions) (i := m.pc)
    rw [hd, List.head?_cons] at hi
    exact hi.symm

theorem tail (h : m.Ahead ((opcode, arguments) :: code)) (hp : n.program = m.program)
    (hpc : n.pc = m.pc + 1) : n.Ahead code := by
  obtain ⟨rest, hrest⟩ := h
  rw [Ahead, hp, hpc, ← List.drop_drop, List.map_drop]
  exact ⟨rest, congrArg (List.drop 1) hrest⟩

end Ahead

/-- A result of a run: it goes on from a machine, or it has failed with a fault. -/
def Result (x : Machine × Option Outcome) : Except Fault Machine → Prop
  | .ok m => x = (m, none)
  | .error f => ∃ e, x.2 = some (.failed e) ∧ e.fault = f

/-- What `k` instructions come to. -/
def Runs (m : Machine) (k : Nat) (r : Except Fault Machine) : Prop := Result (m.run k) r

def FailsWith (m : Machine) (k : Nat) (f : Fault) : Prop :=
  ∃ e, (m.run k).2 = some (.failed e) ∧ e.fault = f

namespace Runs

variable {r s : Except Fault Machine}

theorem of_advance {r : Except Fault α} {g : α → Machine} (hi : m.instruction? = some i)
    (hok : ∀ a, r = .ok a → m.advance = (g a, none))
    (herror : ∀ f, r = .error f → ∃ m', i.step m = .error f m') : m.Runs 1 (r.map g) := by
  cases hr : r with
  | ok a =>
    have ha := hok a hr
    exact run_one_of_none ha
  | error f =>
    obtain ⟨m', hs⟩ := herror f hr
    have ha := advance_of_error hi hs
    refine ⟨.ofInstruction i f, ?_, rfl⟩
    simp only [run, ha]

theorem bind {r : Except Fault α} {g : α → Machine} {s : α → Except Fault Machine}
    (hr : m.Runs 1 (r.map g)) (hs : ∀ a, r = .ok a → (g a).Runs k (s a)) :
    m.Runs (k + 1) (r >>= s) := by
  cases ha : m.advance with
  | mk m' o =>
    have h1 : m.run 1 = (m', o) := by
      cases o <;> simp only [run, ha]
    cases hx : r with
    | ok a =>
      rw [hx, Runs, h1] at hr
      obtain ⟨rfl, rfl⟩ := Prod.mk.inj hr
      have hrun : m.run (k + 1) = (g a).run k := by simp only [run, ha]
      rw [Runs, hrun]
      exact hs a hx
    | error f =>
      rw [hx, Runs, h1] at hr
      obtain ⟨e, he, hf⟩ := hr
      refine ⟨e, ?_, hf⟩
      obtain rfl : o = some (.failed e) := he
      simp only [run, ha]

theorem none_iff (h : m.Runs k r) : (m.run k).2 = none ↔ ∃ m', r = .ok m' := by
  cases r with
  | ok m' => simp only [show m.run k = (m', none) from h, Except.ok.injEq, exists_eq']
  | error f =>
    obtain ⟨e, he, -⟩ := h
    simp only [he, reduceCtorEq, exists_false]

theorem failsWith_iff {f : Fault} (h : m.Runs k r) : m.FailsWith k f ↔ r = .error f := by
  cases r with
  | ok m' =>
    simp only [FailsWith, show m.run k = (m', none) from h, reduceCtorEq, false_and, exists_false]
  | error f' =>
    obtain ⟨e, he, rfl⟩ := h
    constructor
    · rintro ⟨e', he', rfl⟩
      rw [he, Option.some_inj, Outcome.failed.injEq] at he'
      rw [he']
    · intro hf
      exact ⟨e, he, Except.error.inj hf⟩

end Runs

def passed (m : Machine) : Machine := { m with executed := m.executed + 1, pc := m.pc + 1 }

variable {opcode : Opcode} {arguments : List Argument} {code : List (Opcode × List Argument)}

theorem Ahead.runs {r : Except Fault α} {g : α → Machine}
    (h : m.Ahead ((opcode, arguments) :: code))
    (hok : ∀ i : Instruction, i.opcode = opcode → i.arguments = arguments → ∀ a, r = .ok a →
      i.step m = .ok .next (g a))
    (herror : ∀ i : Instruction, i.opcode = opcode → i.arguments = arguments → ∀ f, r = .error f →
      ∃ m', i.step m = .error f m') :
    m.Runs 1 (r.map fun a ↦ (g a).passed) := by
  obtain ⟨i, hi, ho, ha⟩ := h.head
  exact .of_advance hi (fun a hr ↦ advance_of_ok hi (hok i ho ha a hr)) (herror i ho ha)

theorem reframe_runs {F : Frames → Except Fault Frames}
    (h : m.Ahead ((opcode, arguments) :: code))
    (hF : ∀ i : Instruction, i.opcode = opcode → i.arguments = arguments →
      ∃ G, i.reframe? = some G ∧ G m.frames = F m.frames) :
    m.Runs 1 ((F m.frames).map fun fs ↦ passed { m with frames := fs }) := by
  refine h.runs ?_ ?_
  · intro i ho ha fs hfs
    obtain ⟨G, hG, he⟩ := hF i ho ha
    rw [Instruction.step_of_reframe? hG, bind_apply, changeFrames_apply, he, hfs]
    rfl
  · intro i ho ha f hf
    obtain ⟨G, hG, he⟩ := hF i ho ha
    refine ⟨m, ?_⟩
    rw [Instruction.step_of_reframe? hG, bind_apply, changeFrames_apply, he, hf]

theorem pushs_runs {a : Argument} (h : m.Ahead ((.pushs, [a]) :: code)) :
    m.Runs 1 ((a.held m.frames).map fun x ↦ passed { m with operands := x :: m.operands }) := by
  have hstep : ∀ i : Instruction, i.opcode = .pushs → i.arguments = [a] →
      i.step = reading (Argument.held · a) >>= fun x ↦ push x >>= fun _ ↦ pure .next := by
    intro i ho ha
    simp only [Instruction.step, ho, Instruction.definedSymbol_eq, Instruction.operand, ha]
    rfl
  refine h.runs ?_ ?_
  · intro i ho ha x hx
    rw [hstep i ho ha, reading, consult_bind_apply, hx]
    rfl
  · intro i ho ha f hf
    refine ⟨m, ?_⟩
    rw [hstep i ho ha, reading, consult_bind_apply, hf]

theorem pops_runs {v : VarRef} {x : Value} {rest : List Value}
    (h : m.Ahead ((.pops, [.var v]) :: code)) (hx : m.operands = x :: rest) :
    m.Runs 1 ((m.frames.get v >>= fun _ ↦ m.frames.set v x).map fun fs ↦
      passed { m with frames := fs, operands := rest }) := by
  refine h.runs ?_ ?_
  · intro i ho ha fs hr
    obtain ⟨y, hy, hs⟩ := Except.bind_eq_ok.1 hr
    have hp : i.place m.frames 0 = .ok v := by
      rw [Instruction.place_var (by rw [ha]; rfl), hy, Except.ok_bind]
    simp only [Instruction.step, ho, Instruction.destination_eq, reading, consult_bind_apply, hp]
    simp only [bind_apply, pop_apply, hx, assign, changeFrames_apply, hs, pure_apply]
  · intro i ho ha f hr
    simp only [Instruction.step, ho, Instruction.destination_eq, reading, consult_bind_apply]
    rcases Except.bind_eq_error.1 hr with hg | ⟨y, hy, hs⟩
    · rw [Instruction.place_var (by rw [ha]; rfl), hg, Except.error_bind]
      exact ⟨_, rfl⟩
    · rw [Instruction.place_var (by rw [ha]; rfl), hy, Except.ok_bind]
      simp only [bind_apply, pop_apply, hx, assign, changeFrames_apply, hs]
      exact ⟨_, rfl⟩

theorem binaryStack_runs {op : BinaryOp} {a b : Value} {rest : List Value}
    (h : m.Ahead ((.binaryStack op, []) :: code)) (hx : m.operands = b :: a :: rest) :
    m.Runs 1 ((op.apply a b).map fun x ↦ passed { m with operands := x :: rest }) := by
  refine h.runs ?_ ?_
  · intro i ho _ x hr
    simp only [Instruction.step, ho, bind_apply, pop_apply, hx, hr, attempt_ok, push_apply,
      pure_apply]
  · intro i ho _ f hr
    simp only [Instruction.step, ho, bind_apply, pop_apply, hx, hr, attempt_error]
    exact ⟨_, rfl⟩

theorem unaryStack_runs {op : UnaryOp} {a : Value} {rest : List Value}
    (h : m.Ahead ((.unaryStack op, []) :: code)) (hx : m.operands = a :: rest) :
    m.Runs 1 ((op.apply a).map fun x ↦ passed { m with operands := x :: rest }) := by
  refine h.runs ?_ ?_
  · intro i ho _ x hr
    simp only [Instruction.step, ho, bind_apply, pop_apply, hx, hr, attempt_ok, push_apply,
      pure_apply]
  · intro i ho _ f hr
    simp only [Instruction.step, ho, bind_apply, pop_apply, hx, hr, attempt_error]
    exact ⟨_, rfl⟩

end Machine

end ThreeAddress
