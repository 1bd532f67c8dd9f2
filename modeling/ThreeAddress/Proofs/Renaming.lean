import Mathlib.Order.Monotone.Basic
import ThreeAddress.Proofs.Faults
import ThreeAddress.Proofs.Transitions
import ThreeAddress.Run

namespace ThreeAddress

def Argument.rename (g : String → String) : Argument → Argument
  | label name => label (g name)
  | a => a

/-- An instruction with its order counted by `f` and its label called by `g`. -/
def Instruction.rename (f : Nat → Nat) (g : String → String) (i : Instruction) : Instruction :=
  { i with order := f i.order, arguments := i.arguments.map (·.rename g) }

def Fault.rename (g : String → String) : Fault → Fault
  | duplicateLabel name => duplicateLabel (g name)
  | undefinedLabel name => undefinedLabel (g name)
  | e => e

def RuntimeError.rename (f : Nat → Nat) (g : String → String) (e : RuntimeError) : RuntimeError :=
  { e with fault := e.fault.rename g, order := f e.order }

def Outcome.rename (f : Nat → Nat) (g : String → String) : Outcome → Outcome
  | exit code => exit code
  | failed e => failed (e.rename f g)

def Labels.rename (g : String → String) (t : Labels) : Labels :=
  ⟨t.targets.map fun p ↦ (g p.1, p.2)⟩

theorem Program.ofList_of_sorted {l : List Instruction}
    (h : l.Pairwise fun i j ↦ i.order ≤ j.order) : ofList l = ⟨l, h⟩ := by
  have hl : l.mergeSort precedes = l :=
    List.mergeSort_of_pairwise (by simpa only [precedes, decide_eq_true_eq] using h)
  simp only [ofList, hl]

/-- An increasing renumbering is no matter for sorting, and those of the same order stay in
sequence. -/
theorem Program.ofList_rename {f : Nat → Nat} {l : List Instruction}
    (hf : StrictMonoOn f {n | n ∈ l.map (·.order)}) (g : String → String) :
    (ofList (l.map (·.rename f g))).instructions =
      (ofList l).instructions.map (·.rename f g) := by
  refine (List.map_mergeSort fun i hi j hj ↦ ?_).symm
  have hle : f i.order ≤ f j.order ↔ i.order ≤ j.order :=
    hf.le_iff_le (List.mem_map_of_mem hi) (List.mem_map_of_mem hj)
  exact decide_eq_decide.2 hle.symm

namespace Instruction

variable (f : Nat → Nat) (g : String → String) (i : Instruction)

theorem label?_rename : (i.rename f g).label? = i.label?.map g := by
  have ha : Argument.label? ∘ Argument.rename g = Option.map g ∘ Argument.label? := by
    funext a
    cases a <;> rfl
  rw [label?, label?, rename, List.findSome?_map, ha, List.map_findSome?]

end Instruction

namespace Labels

variable {f : Nat → Nat} {g : String → String} {t : Labels} {p p' : Program}

theorem target?_rename (hg : g.Injective) (name : String) :
    (t.rename g).target? (g name) = t.target? name := by
  obtain ⟨targets⟩ := t
  simp only [target?, rename]
  induction targets with
  | nil => rfl
  | cons q targets ih =>
    have hq : (g name == g q.1) = (name == q.1) := by
      rw [Bool.eq_iff_iff, beq_iff_eq, beq_iff_eq]
      exact hg.eq_iff
    rw [List.map_cons, List.lookup_cons, List.lookup_cons, hq, ih]

theorem define_rename (hg : g.Injective) (i : Instruction) (k : Nat) :
    (t.rename g).define (i.rename f g) k =
      ((t.define i k).mapError (·.rename f g)).map (·.rename g) := by
  have ho : (i.rename f g).opcode = i.opcode := rfl
  simp only [define, ho, Instruction.label?_rename]
  cases i.label? with
  | none => cases i.opcode <;> rfl
  | some name =>
    cases i.opcode
    case label =>
      simp only [Option.map_some, target?_rename hg]
      cases t.target? name <;> rfl
    all_goals rfl

theorem defineAll_rename (hg : g.Injective) (l : List (Instruction × Nat)) :
    (l.map (Prod.map (Instruction.rename f g) id)).foldlM (fun t i ↦ define t i.1 i.2)
        (t.rename g) =
      ((l.foldlM (fun t i ↦ define t i.1 i.2) t).mapError (·.rename f g)).map (·.rename g) := by
  induction l generalizing t with
  | nil => rfl
  | cons i l ih =>
    rw [List.map_cons, List.foldlM_cons, List.foldlM_cons, Prod.map_fst, Prod.map_snd, id_eq,
      define_rename hg]
    cases t.define i.1 i.2 with
    | ok t' => exact ih
    | error e => rfl

theorem unresolved?_rename (hg : g.Injective) (i : Instruction) :
    (t.rename g).unresolved? (i.rename f g) = (t.unresolved? i).map (·.rename f g) := by
  have ho : (i.rename f g).opcode = i.opcode := rfl
  simp only [unresolved?, ho, Instruction.label?_rename]
  cases i.label? with
  | none => rfl
  | some name =>
    simp only [Option.map_some, target?_rename hg]
    split <;> rfl

/-- The labels of a renamed program resolve as before, or fail at the same instruction for the same
label. -/
theorem resolve_rename (hg : g.Injective)
    (hp : p'.instructions = p.instructions.map (·.rename f g)) :
    resolve p' = ((resolve p).mapError (·.rename f g)).map (·.rename g) := by
  have hd := defineAll_rename (f := f) (t := {}) hg p.instructions.zipIdx
  rw [← List.zipIdx_map, ← hp] at hd
  -- No label is defined at first, and there is none to rename.
  have he : ({} : Labels).rename g = {} := rfl
  rw [he] at hd
  simp only [resolve, hd]
  cases p.instructions.zipIdx.foldlM (fun t i ↦ t.define i.1 i.2) ({} : Labels) with
  | error e => rfl
  | ok t =>
    have hu : (t.rename g).unresolved? ∘ Instruction.rename f g =
        Option.map (·.rename f g) ∘ t.unresolved? := funext (unresolved?_rename hg)
    simp only [Except.mapError, Except.map, Except.ok_bind, hp, List.findSome?_map, hu,
      ← List.map_findSome?]
    cases p.instructions.findSome? t.unresolved? <;> rfl

end Labels

/-- A result that is no fault about a label. -/
def Unlabelled {α : Type} (r : Except Fault α) : Prop :=
  ∀ f, r = .error f → ∀ g, f.rename g = f

namespace Unlabelled

variable {α β : Type} {r : Except Fault α}

theorem mapError (h : Unlabelled r) (g : String → String) : r.mapError (·.rename g) = r := by
  cases r with
  | ok a => rfl
  | error f => exact congrArg Except.error (h f rfl g)

theorem ok (a : α) : Unlabelled (.ok a) := fun _ h ↦ by cases h

theorem bind {k : α → Except Fault β} (hr : Unlabelled r) (hk : ∀ a, Unlabelled (k a)) :
    Unlabelled (r >>= k) := by
  intro f h
  rcases Except.bind_eq_error.1 h with h | ⟨a, -, h⟩
  · exact hr f h
  · exact hk a f h

theorem of_ordinary (h : Ordinary r) : Unlabelled r := by
  intro f hf g
  have ho : f.ordinary = true := h f hf
  cases f <;> first
    | rfl
    | cases ho

theorem of_typed {suitable : Bool} (h : Typed suitable r) : Unlabelled r :=
  .of_ordinary (.of_typed h)

theorem present (x : Value) : Unlabelled x.present := .of_ordinary (.present x)

theorem get (fs : Frames) (v : VarRef) : Unlabelled (fs.get v) :=
  .of_ordinary (.of_missing? fun _ h ↦ ⟨v, Frames.get_error.1 h⟩)

theorem set (fs : Frames) (v : VarRef) (x : Value) : Unlabelled (fs.set v x) :=
  .of_ordinary (.set fs v x)

end Unlabelled

namespace Instruction

variable (f : Nat → Nat) (g : String → String) (i : Instruction) (fs : Frames) (k : Nat)

theorem arguments_rename : (i.rename f g).arguments[k]? = i.arguments[k]?.map (·.rename g) :=
  List.getElem?_map

theorem operand_rename : (i.rename f g).operand fs k = i.operand fs k := by
  rw [operand, operand, arguments_rename]
  cases i.arguments[k]? with
  | none => rfl
  | some a => cases a <;> rfl

theorem varAt_rename : (i.rename f g).varAt k = i.varAt k := by
  rw [varAt, varAt, arguments_rename]
  cases i.arguments[k]? with
  | none => rfl
  | some a => cases a <;> rfl

theorem readType_rename : (i.rename f g).readType k = i.readType k := by
  rw [readType, readType, arguments_rename]
  cases i.arguments[k]? with
  | none => rfl
  | some a => cases a <;> rfl

theorem place_rename : (i.rename f g).place fs k = i.place fs k := by
  rw [place, place, varAt_rename]

theorem held_rename : (i.rename f g).held fs k = i.held fs k := by
  rw [held, held, operand_rename]

theorem goal_rename (hg : g.Injective) (t : Labels) :
    (i.rename f g).goal (t.rename g) = (i.goal t).mapError (·.rename g) := by
  have ha : (i.rename f g).arguments.head? = i.arguments.head?.map (·.rename g) := List.head?_map
  simp only [goal, ha]
  cases i.arguments.head? with
  | none => rfl
  | some a =>
    cases a with
    | label name =>
      simp only [Option.map_some, Argument.rename, Labels.target?_rename hg]
      cases t.target? name <;> rfl
    | var v | literal x | type name => rfl

theorem reframe?_rename : (i.rename f g).reframe? = i.reframe? := by
  have ho : (i.rename f g).opcode = i.opcode := rfl
  have hs : (i.rename f g).setCharFrames = i.setCharFrames := by
    funext fs
    simp only [setCharFrames, place_rename, operand_rename]
  have ht : (i.rename f g).typeFrames = i.typeFrames := by
    funext fs
    simp only [typeFrames, place_rename, operand_rename]
  have hd : (i.rename f g).defineFrames = i.defineFrames := by
    funext fs
    simp only [defineFrames, varAt_rename]
  simp only [reframe?, ho, unaryFrames, binaryFrames, place_rename, operand_rename, hs, ht, hd]

theorem varAt_unlabelled : Unlabelled (i.varAt k) := by
  intro e h g
  simp only [varAt] at h
  split at h
  · cases h
  · cases h
    rfl

theorem readType_unlabelled : Unlabelled (i.readType k) := by
  intro e h g
  simp only [readType] at h
  split at h
  · cases h
  · cases h
    rfl

theorem operand_unlabelled : Unlabelled (i.operand fs k) := by
  intro e h g
  simp only [operand, Argument.look] at h
  split at h
  · exact Unlabelled.get fs _ e h g
  · cases h
  · cases h
    rfl

theorem place_unlabelled : Unlabelled (i.place fs k) :=
  (i.varAt_unlabelled k).bind fun v ↦ (Unlabelled.get fs v).bind fun _ ↦ .ok v

theorem held_unlabelled : Unlabelled (i.held fs k) :=
  (i.operand_unlabelled fs k).bind fun x ↦ .present x

theorem unaryFrames_unlabelled {op : Value → Except Fault Value} (hop : ∀ a, Unlabelled (op a)) :
    Unlabelled (i.unaryFrames fs op) := by
  refine (i.place_unlabelled fs 0).bind fun v ↦ (i.operand_unlabelled fs 1).bind fun a ↦ ?_
  exact (Unlabelled.present a).bind fun a ↦ (hop a).bind fun x ↦ .set fs v x

theorem binaryFrames_unlabelled {op : Value → Value → Except Fault Value}
    (hop : ∀ a b, Unlabelled (op a b)) : Unlabelled (i.binaryFrames fs op) := by
  refine (i.place_unlabelled fs 0).bind fun v ↦ ?_
  refine (i.operand_unlabelled fs 1).bind fun a ↦ (i.operand_unlabelled fs 2).bind fun b ↦ ?_
  refine (Unlabelled.present a).bind fun a ↦ (Unlabelled.present b).bind fun b ↦ ?_
  exact (hop a b).bind fun x ↦ .set fs v x

theorem setCharFrames_unlabelled : Unlabelled (i.setCharFrames fs) := by
  refine (i.place_unlabelled fs 0).bind fun v ↦ (i.operand_unlabelled fs 0).bind fun s ↦ ?_
  refine (i.operand_unlabelled fs 1).bind fun n ↦ (i.operand_unlabelled fs 2).bind fun r ↦ ?_
  refine (Unlabelled.present s).bind fun s ↦ (Unlabelled.present n).bind fun n ↦ ?_
  refine (Unlabelled.present r).bind fun r ↦ ?_
  exact (Unlabelled.of_typed (setChar_typed s n r)).bind fun x ↦ .set fs v x

theorem typeFrames_unlabelled : Unlabelled (i.typeFrames fs) := by
  refine (i.place_unlabelled fs 0).bind fun v ↦ (i.operand_unlabelled fs 1).bind fun x ↦ ?_
  exact .set fs v _

theorem defineFrames_unlabelled : Unlabelled (i.defineFrames fs) := by
  refine (i.varAt_unlabelled 0).bind fun v ↦ ?_
  intro e h g
  rcases Frames.define_error h with rfl | rfl <;> rfl

variable {i} in
theorem reframe?_unlabelled {F : Frames → Except Fault Frames} (hF : i.reframe? = some F) :
    Unlabelled (F fs) := by
  cases ho : i.opcode <;> simp only [reframe?, ho, reduceCtorEq, Option.some.injEq] at hF <;>
    subst hF
  case move => exact i.unaryFrames_unlabelled fs .ok
  case createFrame => exact .ok _
  case pushFrame =>
    intro e h g
    rw [Frames.push_error h]
    rfl
  case popFrame =>
    intro e h g
    rw [Frames.pop_error h]
    rfl
  case defVar => exact i.defineFrames_unlabelled fs
  case binary op => exact i.binaryFrames_unlabelled fs fun a b ↦ .of_typed (op.apply_typed a b)
  case unary op => exact i.unaryFrames_unlabelled fs fun a ↦ .of_typed (op.apply_typed a)
  case concat => exact i.binaryFrames_unlabelled fs fun a b ↦ .of_typed (concat_typed a b)
  case strlen => exact i.unaryFrames_unlabelled fs fun a ↦ .of_typed (strlen_typed a)
  case getChar => exact i.binaryFrames_unlabelled fs fun a b ↦ .of_typed (getChar_typed a b)
  case setChar => exact i.setCharFrames_unlabelled fs
  case type => exact i.typeFrames_unlabelled fs

end Instruction

end ThreeAddress
