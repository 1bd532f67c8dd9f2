import Mathlib
import ThreeAddress.Proofs.Handlers
import ThreeAddress.Proofs.OperandTypes
import ThreeAddress.Proofs.Operands
import ThreeAddress.Proofs.StaticFaults

namespace ThreeAddress

open Effect

/-- A result looks first for something `missing`, then for an undefined value among the `used` ones,
and then for unsuitable types. -/
structure Prioritised {α : Type} (missing : Option Fault) (used : List Value) (suitable : Bool)
    (r : Except Fault α) : Prop where
  unreached : ∀ f, missing = some f → r = .error f
  undefined : missing = none → .undefined ∈ used → r = .error .missingValue
  mismatch : missing = none → .undefined ∉ used → suitable = false → r = .error .typeMismatch

namespace Prioritised

variable {α β : Type} {first rest : Option Fault} {used : List Value} {suitable : Bool}
  {g : α → Except Fault β}

theorem trivial (r : Except Fault α) : Prioritised none [] true r where
  unreached f hf := by cases hf
  undefined _ hu := by cases hu
  mismatch _ _ hs := by cases hs

theorem lookup {r : Except Fault α} (hr : ∀ f, r = .error f ↔ first = some f)
    (hg : ∀ x, r = .ok x → Prioritised rest used suitable (g x)) :
    Prioritised (first.or rest) used suitable (r >>= g) := by
  cases hx : r with
  | ok x =>
    have hf : first = none := by
      cases hf : first with
      | none => rfl
      | some f =>
        rw [(hr f).2 hf] at hx
        cases hx
    rw [hf, Option.none_or, Except.ok_bind]
    exact hg x hx
  | error f =>
    rw [(hr f).1 hx, Option.some_or, Except.error_bind]
    exact {
      unreached := fun f' hf' ↦ by rw [Option.some_inj.1 hf']
      undefined := fun hn ↦ by cases hn
      mismatch := fun hn ↦ by cases hn }

theorem present {x : Value} {g : Value → Except Fault β}
    (hg : x ≠ .undefined → Prioritised none used suitable (g x)) :
    Prioritised none (x :: used) suitable (x.present >>= g) := by
  by_cases hx : x = .undefined
  · rw [hx]
    exact {
      unreached := fun f hf ↦ by cases hf
      undefined := fun _ _ ↦ rfl
      mismatch := fun _ hu ↦ absurd List.mem_cons_self hu }
  · rw [Value.present_of_ne hx, Except.ok_bind]
    have h := hg hx
    refine ⟨h.unreached, fun hn hu ↦ h.undefined hn ?_, fun hn hu ↦ h.mismatch hn ?_⟩
    · exact (List.mem_cons.1 hu).resolve_left (Ne.symm hx)
    · exact fun hu' ↦ hu (List.mem_cons_of_mem _ hu')

theorem typed {r : Except Fault α} (h : Typed suitable r) : Prioritised none [] suitable r where
  unreached f hf := by cases hf
  undefined _ hu := by cases hu
  mismatch _ _ hs := h.mismatch hs

theorem bind {missing : Option Fault} {r : Except Fault α}
    (h : Prioritised missing used suitable r) : Prioritised missing used suitable (r >>= g) where
  unreached f hf := by rw [h.unreached f hf, Except.error_bind]
  undefined hn hu := by rw [h.undefined hn hu, Except.error_bind]
  mismatch hn hu hs := by rw [h.mismatch hn hu hs, Except.error_bind]

end Prioritised

theorem Opcode.accepts_nil (o : Opcode) : o.accepts [] = true := by
  cases o <;> rfl

namespace Instruction

variable {β : Type} {i : Instruction} {fs : Frames} {v : VarRef} {a b : Argument}

def missing? (i : Instruction) (fs : Frames) : Option Fault :=
  i.arguments.findSome? (Argument.missing? fs)

/-- The arguments whose values count: the symbols, and the destination where a character is set. The
type of a symbol can be asked for whether or not it has a value. -/
def usedArguments (i : Instruction) : List Argument :=
  match i.opcode with
  | .type => []
  | .setChar => i.arguments
  | o => ((i.arguments.zip o.signature).filter fun p ↦ p.2 = .symb).map Prod.fst

def used (i : Instruction) (fs : Frames) : List Value :=
  i.usedArguments.filterMap fun a ↦ (a.value fs).toOption

def suitable (i : Instruction) (fs : Frames) : Bool :=
  i.opcode.accepts ((i.used fs).map Value.type)

theorem usedArguments_of_ne (ht : i.opcode ≠ .type) (hc : i.opcode ≠ .setChar) :
    i.usedArguments =
      ((i.arguments.zip i.opcode.signature).filter fun p ↦ p.2 = .symb).map Prod.fst := by
  unfold usedArguments
  split
  · next ho => exact absurd ho ht
  · next ho => exact absurd ho hc
  · rfl

theorem missing?_of_arguments {l : List Argument} (h : i.arguments = l) :
    i.missing? fs = l.foldr (fun a r ↦ (a.missing? fs).or r) none := by
  rw [missing?, h]
  clear h
  induction l with
  | nil => rfl
  | cons a l ih =>
    rw [List.findSome?_cons, ih, List.foldr_cons]
    cases a.missing? fs <;> rfl

theorem unaryFrames_prioritised {op : Value → Except Fault Value} (hi : i.arguments = [.var v, a])
    (ha : a.fits .symb = true) (hu : i.usedArguments = [a])
    (hop : ∀ x, Typed (i.opcode.accepts [x.type]) (op x)) :
    Prioritised (i.missing? fs) (i.used fs) (i.suitable fs) (i.unaryFrames fs op) := by
  rw [unaryFrames_var hi ha, missing?_of_arguments hi]
  refine .lookup (fun f ↦ Frames.get_error) fun _ _ ↦ ?_
  refine .lookup (fun f ↦ Argument.value_error ha) fun x hx ↦ ?_
  have hused : i.used fs = [x] := by simp [used, hu, hx, Except.toOption]
  rw [suitable, hused]
  exact .present fun _ ↦ .bind (.typed (hop x))

theorem binaryFrames_prioritised {op : Value → Value → Except Fault Value}
    (hi : i.arguments = [.var v, a, b]) (ha : a.fits .symb = true) (hb : b.fits .symb = true)
    (hu : i.usedArguments = [a, b])
    (hop : ∀ x y, Typed (i.opcode.accepts [x.type, y.type]) (op x y)) :
    Prioritised (i.missing? fs) (i.used fs) (i.suitable fs) (i.binaryFrames fs op) := by
  rw [binaryFrames_var hi ha hb, missing?_of_arguments hi]
  refine .lookup (fun f ↦ Frames.get_error) fun _ _ ↦ ?_
  refine .lookup (fun f ↦ Argument.value_error ha) fun x hx ↦ ?_
  refine .lookup (fun f ↦ Argument.value_error hb) fun y hy ↦ ?_
  have hused : i.used fs = [x, y] := by simp [used, hu, hx, hy, Except.toOption]
  rw [suitable, hused]
  exact .present fun _ ↦ .present fun _ ↦ .bind (.typed (hop x y))

theorem setCharFrames_prioritised (ho : i.opcode = .setChar) (hi : i.arguments = [.var v, a, b])
    (ha : a.fits .symb = true) (hb : b.fits .symb = true) :
    Prioritised (i.missing? fs) (i.used fs) (i.suitable fs) (i.setCharFrames fs) := by
  rw [setCharFrames_var hi ha hb, missing?_of_arguments hi]
  refine .lookup (fun f ↦ Frames.get_error) fun s hs ↦ ?_
  refine .lookup (fun f ↦ Argument.value_error ha) fun x hx ↦ ?_
  refine .lookup (fun f ↦ Argument.value_error hb) fun y hy ↦ ?_
  have hv : Argument.value fs (.var v) = .ok s := hs
  have hused : i.used fs = [s, x, y] := by
    simp [used, usedArguments, ho, hi, hv, hx, hy, Except.toOption]
  rw [suitable, hused, ho]
  exact .present fun _ ↦ .present fun _ ↦ .present fun _ ↦ .bind (.typed (setChar_typed s x y))

theorem typeFrames_prioritised (ho : i.opcode = .type) (hi : i.arguments = [.var v, a])
    (ha : a.fits .symb = true) :
    Prioritised (i.missing? fs) (i.used fs) (i.suitable fs) (i.typeFrames fs) := by
  have hused : i.used fs = [] := by simp [used, usedArguments, ho]
  rw [typeFrames_var hi ha, missing?_of_arguments hi, suitable, hused, ho]
  refine .lookup (fun f ↦ Frames.get_error) fun _ _ ↦ ?_
  exact .lookup (fun f ↦ Argument.value_error ha) fun x _ ↦ .trivial _

theorem place_prioritised (hi : i.arguments.head? = some (.var v))
    (hm : i.missing? fs = (fs.missing? v).or none) (hu : i.usedArguments = [])
    (hs : i.opcode.accepts [] = true) :
    Prioritised (i.missing? fs) (i.used fs) (i.suitable fs) (i.place fs 0) := by
  have hused : i.used fs = [] := by rw [used, hu, List.filterMap_nil]
  rw [List.head?_eq_getElem?] at hi
  rw [place_var hi, hm, suitable, hused, List.map_nil, hs]
  exact .lookup (fun f ↦ Frames.get_error) fun _ _ ↦ .trivial _

theorem operand_prioritised {g : Value → Except Fault β} (hi : i.arguments = [a])
    (ha : a.fits .symb = true) (hu : i.usedArguments = [a])
    (hg : ∀ x, Typed (i.opcode.accepts [x.type]) (g x)) :
    Prioritised (i.missing? fs) (i.used fs) (i.suitable fs)
      (i.operand fs 0 >>= fun x ↦ x.present >>= g) := by
  rw [operand_symb (by rw [hi]; rfl) ha, missing?_of_arguments hi]
  refine .lookup (fun f ↦ Argument.value_error ha) fun x hx ↦ ?_
  have hused : i.used fs = [x] := by simp [used, hu, hx, Except.toOption]
  rw [suitable, hused]
  exact .present fun _ ↦ .typed (hg x)

namespace WellFormed

theorem symb_arguments (hi : i.WellFormed) (hs : i.opcode.signature = [.symb]) :
    ∃ a, i.arguments = [a] ∧ a.fits .symb = true := by
  have hf := hi.fits
  rw [hs] at hf
  obtain ⟨a, l, ha, hl, he⟩ := List.forall₂_cons_right_iff.1 hf
  rw [List.forall₂_nil_right_iff.1 hl] at he
  exact ⟨a, he, ha⟩

theorem var_arguments (hi : i.WellFormed) (hs : i.opcode.signature = [.var]) :
    ∃ v, i.arguments = [.var v] := by
  have hf := hi.fits
  rw [hs] at hf
  obtain ⟨a, l, ha, hl, he⟩ := List.forall₂_cons_right_iff.1 hf
  obtain ⟨v, rfl⟩ := Argument.fits_var.1 ha
  rw [List.forall₂_nil_right_iff.1 hl] at he
  exact ⟨v, he⟩

theorem var_type_arguments (hi : i.WellFormed) (hs : i.opcode.signature = [.var, .type]) :
    ∃ v name, i.arguments = [.var v, .type name] := by
  have hf := hi.fits
  rw [hs] at hf
  obtain ⟨a, l₁, ha, h₁, he⟩ := List.forall₂_cons_right_iff.1 hf
  obtain ⟨b, l₂, hb, h₂, rfl⟩ := List.forall₂_cons_right_iff.1 h₁
  obtain ⟨v, rfl⟩ := Argument.fits_var.1 ha
  obtain ⟨name, rfl⟩ := Argument.fits_type.1 hb
  rw [List.forall₂_nil_right_iff.1 h₂] at he
  exact ⟨v, name, he⟩

theorem var_symb_arguments (hi : i.WellFormed) (hs : i.opcode.signature = [.var, .symb]) :
    ∃ v a, i.arguments = [.var v, a] ∧ a.fits .symb = true := by
  have hf := hi.fits
  rw [hs] at hf
  obtain ⟨b, l₁, hb, h₁, he⟩ := List.forall₂_cons_right_iff.1 hf
  obtain ⟨a, l₂, ha, h₂, rfl⟩ := List.forall₂_cons_right_iff.1 h₁
  obtain ⟨v, rfl⟩ := Argument.fits_var.1 hb
  rw [List.forall₂_nil_right_iff.1 h₂] at he
  exact ⟨v, a, he, ha⟩

theorem symb_symb_arguments {kind : OperandKind} (hi : i.WellFormed)
    (hs : i.opcode.signature = [kind, .symb, .symb]) :
    ∃ c a b, i.arguments = [c, a, b] ∧ c.fits kind = true ∧ a.fits .symb = true ∧
      b.fits .symb = true := by
  have hf := hi.fits
  rw [hs] at hf
  obtain ⟨c, l₁, hc, h₁, he⟩ := List.forall₂_cons_right_iff.1 hf
  obtain ⟨a, l₂, ha, h₂, rfl⟩ := List.forall₂_cons_right_iff.1 h₁
  obtain ⟨b, l₃, hb, h₃, rfl⟩ := List.forall₂_cons_right_iff.1 h₂
  rw [List.forall₂_nil_right_iff.1 h₃] at he
  exact ⟨c, a, b, he, hc, ha, hb⟩

end WellFormed

theorem bare_prioritised (hi : i.WellFormed)
    (hs : i.opcode.signature = [] ∨ i.opcode.signature = [.label]) {α : Type} (r : Except Fault α) :
    Prioritised (i.missing? fs) (i.used fs) (i.suitable fs) r := by
  have harguments : i.arguments = [] ∨ ∃ name, i.arguments = [.label name] := by
    have hf := hi.fits
    rcases hs with hs | hs
    · rw [hs] at hf
      exact .inl (List.forall₂_nil_right_iff.1 hf)
    · rw [hs] at hf
      obtain ⟨a, l, ha, hl, he⟩ := List.forall₂_cons_right_iff.1 hf
      obtain ⟨name, rfl⟩ := Argument.fits_label.1 ha
      rw [List.forall₂_nil_right_iff.1 hl] at he
      exact .inr ⟨name, he⟩
  have hm : i.missing? fs = none := by
    rcases harguments with h | ⟨name, h⟩ <;> rw [missing?_of_arguments h] <;> rfl
  have hused : i.used fs = [] := by
    rw [used, List.filterMap_eq_nil_iff]
    intro a ha
    simp only [usedArguments] at ha
    split at ha
    · cases ha
    · next ho =>
      rw [ho] at hs
      rcases hs with hs | hs <;> cases hs
    · rcases hs with hs | hs
      · rw [hs, List.zip_nil_right] at ha
        cases ha
      · rw [hs] at ha
        rcases harguments with h | ⟨name, h⟩ <;> rw [h] at ha <;> simp at ha
  rw [hm, suitable, hused, List.map_nil, Opcode.accepts_nil]
  exact .trivial r

theorem missing?_kind {f : Fault} (h : i.missing? fs = some f) :
    f.kind = .nonexistentFrame ∨ f.kind = .undefinedVariable := by
  obtain ⟨a, -, ha⟩ := List.exists_of_findSome?_eq_some h
  cases a with
  | var v =>
    rcases Frames.missing?_kind ha with rfl | rfl
    · exact .inl rfl
    · exact .inr rfl
  | literal x | label name | type name => cases ha

/-- A step fails as soon as the operands do not pass, checked by priority. -/
def ChecksOperands (i : Instruction) (m : Machine) : Prop :=
  ∃ (α : Type) (r : Except Fault α), (∀ f, r = .error f → i.step m = .error f m) ∧
    Prioritised (i.missing? m.frames) (i.used m.frames) (i.suitable m.frames) r

variable {m : Machine}

theorem checksOperands_of_bare (hi : i.WellFormed)
    (hs : i.opcode.signature = [] ∨ i.opcode.signature = [.label]) : i.ChecksOperands m := by
  refine ⟨Unit, .ok (), ?_, bare_prioritised hi hs _⟩
  intro f hf
  cases hf

theorem checksOperands_of_reframe {F : Frames → Except Fault Frames} (hF : i.reframe? = some F)
    (h : Prioritised (i.missing? m.frames) (i.used m.frames) (i.suitable m.frames) (F m.frames)) :
    i.ChecksOperands m := by
  refine ⟨Frames, F m.frames, ?_, h⟩
  intro f hf
  rw [step_of_reframe? hF, bind_apply, changeFrames_apply, hf]

theorem checksOperands_of_unary (hi : i.WellFormed) (hs : i.opcode.signature = [.var, .symb])
    (ht : i.opcode ≠ .type)
    {op : Value → Except Fault Value} (hF : i.reframe? = some (i.unaryFrames · op))
    (hop : ∀ x, Typed (i.opcode.accepts [x.type]) (op x)) : i.ChecksOperands m := by
  obtain ⟨v, a, harguments, ha⟩ := hi.var_symb_arguments hs
  have hu : i.usedArguments = [a] := by
    rw [usedArguments_of_ne ht (fun hc ↦ by rw [hc] at hs; cases hs), harguments, hs]
    rfl
  exact checksOperands_of_reframe hF (unaryFrames_prioritised harguments ha hu hop)

theorem checksOperands_of_binary (hi : i.WellFormed)
    (hs : i.opcode.signature = [.var, .symb, .symb]) (hc : i.opcode ≠ .setChar)
    {op : Value → Value → Except Fault Value} (hF : i.reframe? = some (i.binaryFrames · op))
    (hop : ∀ x y, Typed (i.opcode.accepts [x.type, y.type]) (op x y)) : i.ChecksOperands m := by
  obtain ⟨c, a, b, harguments, hv, ha, hb⟩ := hi.symb_symb_arguments hs
  obtain ⟨v, rfl⟩ := Argument.fits_var.1 hv
  have hu : i.usedArguments = [a, b] := by
    rw [usedArguments_of_ne (fun ht ↦ by rw [ht] at hs; cases hs) hc, harguments, hs]
    rfl
  exact checksOperands_of_reframe hF (binaryFrames_prioritised harguments ha hb hu hop)

theorem checksOperands_of_symbol (hi : i.WellFormed) (hs : i.opcode.signature = [.symb])
    {g : Value → Except Fault β}
    (hg : ∀ x, Typed (i.opcode.accepts [x.type]) (g x)) {rest : Value → Effect Flow}
    (hstep : i.step m = (i.definedSymbol 0 >>= rest) m)
    (hrest : ∀ x f, g x = .error f → rest x m = .error f m) : i.ChecksOperands m := by
  obtain ⟨a, harguments, ha⟩ := hi.symb_arguments hs
  have hu : i.usedArguments = [a] := by
    rw [usedArguments_of_ne (fun ht ↦ by rw [ht] at hs; cases hs)
      (fun hc ↦ by rw [hc] at hs; cases hs), harguments, hs]
    rfl
  refine ⟨β, _, ?_, operand_prioritised harguments ha hu hg⟩
  intro f hf
  rw [hstep, definedSymbol_eq, reading, consult_bind_apply]
  rw [← bind_assoc] at hf
  rcases Except.bind_eq_error.1 hf with hx | ⟨x, hx, hf⟩
  · rw [hx]
  · rw [hx]
    exact hrest x f hf

theorem checksOperands_of_place {v : VarRef} (hi : i.arguments.head? = some (.var v))
    (hm : i.missing? m.frames = (m.frames.missing? v).or none) (hu : i.usedArguments = [])
    {rest : VarRef → Effect Flow} (hstep : i.step m = (i.destination 0 >>= rest) m) :
    i.ChecksOperands m := by
  refine ⟨VarRef, _, ?_, place_prioritised hi hm hu i.opcode.accepts_nil⟩
  intro f hf
  rw [hstep, destination_eq, reading, consult_bind_apply, hf]

/-- All handlers check their operands by priority, but for the definition of a variable and for the
conditional jump. -/
theorem checksOperands (hi : i.WellFormed) (hd : i.opcode ≠ .defVar)
    (hj : ∀ c, i.opcode ≠ .jumpIf c) : i.ChecksOperands m := by
  cases ho : i.opcode
  case defVar => exact absurd ho hd
  case jumpIf c => exact absurd ho (hj c)
  case createFrame | pushFrame | popFrame | ret | clears | breakpoint | binaryStack | unaryStack =>
    exact checksOperands_of_bare hi (.inl (by rw [ho]; rfl))
  case call | label | jump | jumpIfStack =>
    exact checksOperands_of_bare hi (.inr (by rw [ho]; rfl))
  case move =>
    refine checksOperands_of_unary hi (by rw [ho]; rfl) (by simp [ho]) (by rw [reframe?, ho]) ?_
    intro x
    rw [ho]
    exact .ok rfl
  case unary op =>
    refine checksOperands_of_unary hi (by rw [ho]; rfl) (by simp [ho]) (by rw [reframe?, ho]) ?_
    intro x
    rw [ho]
    exact op.apply_typed x
  case strlen =>
    refine checksOperands_of_unary hi (by rw [ho]; rfl) (by simp [ho]) (by rw [reframe?, ho]) ?_
    intro x
    rw [ho]
    exact strlen_typed x
  case binary op =>
    refine checksOperands_of_binary hi (by rw [ho]; rfl) (by simp [ho]) (by rw [reframe?, ho]) ?_
    intro x y
    rw [ho]
    exact op.apply_typed x y
  case concat =>
    refine checksOperands_of_binary hi (by rw [ho]; rfl) (by simp [ho]) (by rw [reframe?, ho]) ?_
    intro x y
    rw [ho]
    exact concat_typed x y
  case getChar =>
    refine checksOperands_of_binary hi (by rw [ho]; rfl) (by simp [ho]) (by rw [reframe?, ho]) ?_
    intro x y
    rw [ho]
    exact getChar_typed x y
  case setChar =>
    obtain ⟨c, a, b, harguments, hc, ha, hb⟩ := hi.symb_symb_arguments (by rw [ho]; rfl)
    obtain ⟨v, rfl⟩ := Argument.fits_var.1 hc
    exact checksOperands_of_reframe (by rw [reframe?, ho])
      (setCharFrames_prioritised ho harguments ha hb)
  case type =>
    obtain ⟨v, a, harguments, ha⟩ := hi.var_symb_arguments (by rw [ho]; rfl)
    exact checksOperands_of_reframe (by rw [reframe?, ho])
      (typeFrames_prioritised ho harguments ha)
  case pops =>
    obtain ⟨v, harguments⟩ := hi.var_arguments (by rw [ho]; rfl)
    refine checksOperands_of_place (by rw [harguments]; rfl) (missing?_of_arguments harguments) ?_
      (by rw [step, ho])
    rw [usedArguments_of_ne (by simp [ho]) (by simp [ho]), harguments, ho]
    rfl
  case read =>
    obtain ⟨v, name, harguments⟩ := hi.var_type_arguments (by rw [ho]; rfl)
    refine checksOperands_of_place (by rw [harguments]; rfl) (missing?_of_arguments harguments) ?_
      (by rw [step, ho]; simp only [applyRead, bind_assoc]; rfl)
    rw [usedArguments_of_ne (by simp [ho]) (by simp [ho]), harguments, ho]
    rfl
  case pushs | write | dprint =>
    refine checksOperands_of_symbol (g := Except.ok) hi (by rw [ho]; rfl) ?_ (by rw [step, ho]) ?_
    · intro x
      rw [ho]
      exact .ok rfl
    · intro x f hf
      cases hf
  case exit =>
    refine checksOperands_of_symbol (g := Value.exitCode) hi (by rw [ho]; rfl) ?_
      (by rw [step, ho]) ?_
    · intro x
      rw [ho]
      exact exitCode_typed x
    · intro x f hf
      rw [bind_apply, hf, attempt_error]

/-- A conditional jump whose first operand is undefined, and hides what is wrong with the second. -/
def Shadowed (i : Instruction) (fs : Frames) : Prop :=
  (∃ c, i.opcode = .jumpIf c) ∧ i.operand fs 1 = .ok .undefined

variable {c : Condition}

theorem jumpIf_error {f : Fault} (hi : i.WellFormed) (ht : m.labels.unresolved? i = none)
    (ho : i.opcode = .jumpIf c)
    (hf : (i.operand m.frames 1 >>= Value.present) >>= (fun x ↦
      (i.operand m.frames 2 >>= Value.present) >>= fun y ↦ c.holds x y) = .error f) :
    i.step m = .error f m := by
  obtain ⟨n, hn⟩ := hi.goal_ok (by rw [ho]; rfl) ht
  have hstep : i.step m = (do
      let n ← i.target
      let x ← i.definedSymbol 1
      let y ← i.definedSymbol 2
      branch c n x y) m := by
    rw [step, ho]
  simp only [target_eq, definedSymbol_eq, reading, consult_bind_apply, hn] at hstep
  rw [hstep]
  rcases Except.bind_eq_error.1 hf with hx | ⟨x, hx, hf⟩
  · rw [hx]
  rcases Except.bind_eq_error.1 hf with hy | ⟨y, hy, hf⟩
  · rw [hx, hy]
  · simp only [hx, hy, branch, bind_apply, hf, attempt_error]

theorem step_of_shadowed (hi : i.WellFormed) (ht : m.labels.unresolved? i = none)
    (h : i.Shadowed m.frames) : i.step m = .error .missingValue m := by
  obtain ⟨⟨c, ho⟩, hx⟩ := h
  refine jumpIf_error hi ht ho ?_
  rw [hx]
  rfl

theorem undefined_mem_used (hi : i.WellFormed) (h : i.Shadowed fs) : .undefined ∈ i.used fs := by
  obtain ⟨⟨c, ho⟩, hx⟩ := h
  obtain ⟨l, a, b, harguments, -, ha, -⟩ := hi.symb_symb_arguments (by rw [ho]; rfl)
  rw [operand_symb (by rw [harguments]; rfl) ha] at hx
  rw [used, List.mem_filterMap]
  refine ⟨a, ?_, by rw [hx]; rfl⟩
  rw [usedArguments_of_ne (by simp [ho]) (by simp [ho]), harguments, ho]
  exact List.mem_cons_self

theorem jumpIf_checksOperands (hi : i.WellFormed) (ht : m.labels.unresolved? i = none)
    (ho : i.opcode = .jumpIf c) (hs : ¬ i.Shadowed m.frames) : i.ChecksOperands m := by
  obtain ⟨l, a, b, harguments, hl, ha, hb⟩ := hi.symb_symb_arguments (by rw [ho]; rfl)
  obtain ⟨name, rfl⟩ := Argument.fits_label.1 hl
  have hu : i.usedArguments = [a, b] := by
    rw [usedArguments_of_ne (by simp [ho]) (by simp [ho]), harguments, ho]
    rfl
  have h1 : i.operand m.frames 1 = a.value m.frames := operand_symb (by rw [harguments]; rfl) ha
  have h2 : i.operand m.frames 2 = b.value m.frames := operand_symb (by rw [harguments]; rfl) hb
  refine ⟨Bool, _, fun f ↦ jumpIf_error hi ht ho, ?_⟩
  rw [missing?_of_arguments harguments, bind_assoc, h1, h2]
  refine .lookup (fun f ↦ Argument.value_error ha) fun x hx ↦ ?_
  have hne : x ≠ .undefined := by
    rintro rfl
    exact hs ⟨⟨c, ho⟩, h1.trans hx⟩
  rw [Value.present_of_ne hne, Except.ok_bind, bind_assoc]
  refine .lookup (fun f ↦ Argument.value_error hb) fun y hy ↦ ?_
  have hused : i.used m.frames = [x, y] := by simp [used, hu, hx, hy, Except.toOption]
  have hp : Prioritised none [x, y] (i.suitable m.frames)
      (x.present >>= fun x ↦ y.present >>= fun y ↦ c.holds x y) := by
    rw [suitable, hused, ho]
    exact .present fun _ ↦ .present fun _ ↦ .typed (c.holds_typed x y)
  rw [Value.present_of_ne hne, Except.ok_bind] at hp
  rwa [hused]

end Instruction

namespace Machine

variable {text : String} {p : Program} {input : List UInt8} {output diagnostics : Sink}
  {m : Machine} {i : Instruction}

/-- The operands of every instruction but the definition of a variable are checked by priority:
first that they can be looked up, in the order of their slots, then that those in use have values,
then their types; only the values themselves are left to complain of. A conditional jump falls short
of this: it requires its first operand to have a value before it looks the second up. -/
theorem operand_error_priority (hp : Program.load text = .ok p)
    (hm : Session (fresh p input output diagnostics) .running m) (hi : m.instruction? = some i)
    (hd : i.opcode ≠ .defVar) :
    (∀ f, i.missing? m.frames = some f → ¬ i.Shadowed m.frames →
      m.advance = (m, some (.failed (.ofInstruction i f)))) ∧
    (∀ f, i.missing? m.frames = some f → i.Shadowed m.frames →
      m.advance = (m, some (.failed (.ofInstruction i .missingValue)))) ∧
    (i.missing? m.frames = none → .undefined ∈ i.used m.frames →
      m.advance = (m, some (.failed (.ofInstruction i .missingValue)))) ∧
    (i.missing? m.frames = none → .undefined ∉ i.used m.frames → i.suitable m.frames = false →
      m.advance = (m, some (.failed (.ofInstruction i .typeMismatch)))) ∧
    (∀ m' e, m.advance = (m', some (.failed e)) →
      e.fault.kind = .wrongValue ∨ e.fault.kind = .stringHandling →
      i.missing? m.frames = none ∧ .undefined ∉ i.used m.frames ∧ i.suitable m.frames = true) := by
  obtain ⟨hw, ht⟩ := hm.instruction_ready hp hi
  by_cases hs : i.Shadowed m.frames
  · have ha := advance_of_error hi (Instruction.step_of_shadowed hw ht hs)
    have hu := Instruction.undefined_mem_used hw hs
    refine ⟨fun _ _ hns ↦ absurd hs hns, fun _ _ _ ↦ ha, fun _ _ ↦ ha,
      fun _ hnu ↦ absurd hu hnu, ?_⟩
    intro m' e he hk
    rw [ha] at he
    cases he
    rcases hk with hk | hk <;> cases hk
  · have hc : i.ChecksOperands m := by
      by_cases hj : ∃ c, i.opcode = .jumpIf c
      · obtain ⟨c, ho⟩ := hj
        exact Instruction.jumpIf_checksOperands hw ht ho hs
      · exact Instruction.checksOperands hw hd fun c ho ↦ hj ⟨c, ho⟩
    obtain ⟨α, r, hstep, hr⟩ := hc
    have hfail : ∀ f, r = .error f → m.advance = (m, some (.failed (.ofInstruction i f))) :=
      fun f hf ↦ advance_of_error hi (hstep f hf)
    refine ⟨fun f hf _ ↦ hfail f (hr.unreached f hf), fun f _ h ↦ absurd h hs,
      fun hn hu ↦ hfail _ (hr.undefined hn hu), fun hn hu ht ↦ hfail _ (hr.mismatch hn hu ht), ?_⟩
    intro m' e he hk
    have hfault : ∀ f, r = .error f → e.fault = f := by
      intro f hf
      rw [hfail f hf] at he
      cases he
      rfl
    have hn : i.missing? m.frames = none := by
      cases hn : i.missing? m.frames with
      | none => rfl
      | some f =>
        rw [hfault f (hr.unreached f hn)] at hk
        rcases Instruction.missing?_kind hn with h | h <;> rw [h] at hk <;> simp at hk
    have hu : .undefined ∉ i.used m.frames := by
      intro hu
      rw [hfault _ (hr.undefined hn hu)] at hk
      rcases hk with hk | hk <;> cases hk
    refine ⟨hn, hu, ?_⟩
    cases ht : i.suitable m.frames with
    | true => rfl
    | false =>
      rw [hfault _ (hr.mismatch hn hu ht)] at hk
      rcases hk with hk | hk <;> cases hk

def shadowingText : String :=
  "<program language=\"IPPcode22\">" ++
  "<instruction order=\"1\" opcode=\"DEFVAR\"><arg1 type=\"var\">GF@u</arg1></instruction>" ++
  "<instruction order=\"2\" opcode=\"JUMPIFEQ\"><arg1 type=\"label\">l</arg1>" ++
  "<arg2 type=\"var\">GF@u</arg2><arg3 type=\"var\">LF@x</arg3></instruction>" ++
  "<instruction order=\"3\" opcode=\"LABEL\"><arg1 type=\"label\">l</arg1></instruction>" ++
  "</program>"

def shadowing : Instruction := ⟨2, .jumpIf .eq, [.label "l", .var ⟨.gf, "u"⟩, .var ⟨.lf, "x"⟩]⟩

def shadowingProgram : Program :=
  .ofList [⟨1, .defVar, [.var ⟨.gf, "u"⟩]⟩, shadowing, ⟨3, .label, [.label "l"]⟩]

theorem load_shadowing : Program.load shadowingText = .ok shadowingProgram := by
  have hr : Markup.Element.read shadowingText = .ok {
      name := "program"
      attributes := [("language", "IPPcode22")]
      children := [
        { name := "instruction"
          attributes := [("order", "1"), ("opcode", "DEFVAR")]
          children := [{ name := "arg1", attributes := [("type", "var")], text := "GF@u" }] },
        { name := "instruction"
          attributes := [("order", "2"), ("opcode", "JUMPIFEQ")]
          children := [
            { name := "arg1", attributes := [("type", "label")], text := "l" },
            { name := "arg2", attributes := [("type", "var")], text := "GF@u" },
            { name := "arg3", attributes := [("type", "var")], text := "LF@x" }] },
        { name := "instruction"
          attributes := [("order", "3"), ("opcode", "LABEL")]
          children := [
            { name := "arg1", attributes := [("type", "label")], text := "l" }] }] } := by
    cbv
  rw [Program.load_of_read hr]
  exact Markup.Element.toProgram_of_instructions
    (l := [⟨3, .label, [.label "l"]⟩, shadowing, ⟨1, .defVar, [.var ⟨.gf, "u"⟩]⟩]) rfl
    (by cbv) (by cbv)

def shadowingMachine : Machine :=
  { fresh shadowingProgram [] {} {} with
    labels := ⟨[("l", 3)]⟩
    frames := { globals := ⟨[("u", .undefined)]⟩ }
    pc := 1
    executed := 1 }

theorem session_shadowing :
    Session (fresh shadowingProgram [] {} {}) .running shadowingMachine := by
  have hs : (fresh shadowingProgram [] {} {}).start =
      .ok { fresh shadowingProgram [] {} {} with labels := ⟨[("l", 3)]⟩ } := by
    cbv
  refine .next (.start .fresh hs) ?_
  cbv

theorem shadowing_missing? :
    shadowing.missing? shadowingMachine.frames = some (.nonexistentFrame .lf) := by cbv

theorem operand_error_priority_shadowed :
    shadowing.Shadowed shadowingMachine.frames ∧
      shadowingMachine.advance =
        (shadowingMachine, some (.failed (.ofInstruction shadowing .missingValue))) := by
  have hs : shadowing.Shadowed shadowingMachine.frames := ⟨⟨.eq, rfl⟩, by cbv⟩
  have hi : shadowingMachine.instruction? = some shadowing := by cbv
  have h := operand_error_priority load_shadowing session_shadowing hi (by simp [shadowing])
  exact ⟨hs, h.2.1 _ shadowing_missing? hs⟩

/-- The first operand that cannot be looked up does not always decide. -/
theorem operand_error_priority_exception :
    ¬ ∀ (text : String) (p : Program) (m : Machine) (i : Instruction) (f : Fault),
      Program.load text = .ok p → Session (fresh p [] {} {}) .running m →
      m.instruction? = some i → i.opcode ≠ .defVar → i.missing? m.frames = some f →
      m.advance = (m, some (.failed (.ofInstruction i f))) := by
  intro h
  have hi : shadowingMachine.instruction? = some shadowing := by cbv
  have ha := h shadowingText shadowingProgram shadowingMachine shadowing (.nonexistentFrame .lf)
    load_shadowing session_shadowing hi (by simp [shadowing]) shadowing_missing?
  have hs : shadowing.step shadowingMachine = .error .missingValue shadowingMachine := by cbv
  rw [advance_of_error hi hs] at ha
  simp [RuntimeError.ofInstruction] at ha

end Machine

end ThreeAddress
