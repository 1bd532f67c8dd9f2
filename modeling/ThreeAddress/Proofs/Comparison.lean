import Mathlib
import ThreeAddress.Proofs.OperandTypes
import ThreeAddress.Proofs.StackForms
import ThreeAddress.Proofs.Text.Order

namespace ThreeAddress

open Text

namespace BinaryOp

open Value

/-- A comparison comes out true. -/
def Holds (op : BinaryOp) (a b : Value) : Prop := op.apply a b = .ok (.bool true)

/-- A comparison has an answer on suitable values, and on no others. -/
structure AnswersIff (op : BinaryOp) (a b : Value) (suitable : Prop) : Prop where
  answer : suitable → ∃ e, op.apply a b = .ok (.bool e)
  mismatch : ¬ suitable → op.apply a b = .error .typeMismatch

/-- LT is a strict total order on the values of a type. -/
structure Orders (t : ValueType) : Prop where
  irrefl : ∀ a, a.type = t → ¬ lt.Holds a a
  trans : ∀ a b c, a.type = t → b.type = t → c.type = t →
    lt.Holds a b → lt.Holds b c → lt.Holds a c
  trichotomy : ∀ a b, a.type = t → b.type = t → ∃! op, op ∈ [lt, eq, gt] ∧ op.Holds a b

/-- What EQ, LT and GT say of two values, in either sequence. -/
structure Compares (a b : Value) : Prop where
  eq_answers : eq.AnswersIff a b (a.type = b.type ∨ a = .nil ∨ b = .nil)
  order_answers : ∀ op ∈ [lt, gt], op.AnswersIff a b (a.type = b.type ∧ a.type ≠ .nil)
  succeeds_comm : ∀ op ∈ [eq, lt, gt], (∃ x, op.apply a b = .ok x) ↔ ∃ x, op.apply b a = .ok x
  nil_left : eq.Holds .nil a ↔ a = .nil
  nil_right : eq.Holds a .nil ↔ a = .nil
  identical : a.type ≠ .float → b.type ≠ .float →
    eq.apply a b = eq.apply b a ∧ (eq.Holds a b ↔ a = b)

variable {op : BinaryOp} {a b : Value} {suitable : Prop} {s t : String}

theorem gt_apply (a b : Value) : gt.apply a b = lt.apply b a := rfl

theorem lt_holds_bool {x y : Bool} : lt.Holds (.bool x) (.bool y) ↔ x < y := by
  cases x <;> cases y <;> simp [Holds, apply, less, Except.map]

theorem lt_holds_int {x y : Int64} : lt.Holds (.int x) (.int y) ↔ x.toInt < y.toInt := by
  simp [Holds, apply, less, Except.map, Int64.lt_iff_toInt_lt]

theorem lt_holds_string : lt.Holds (.string s) (.string t) ↔ s < t := by
  simp [Holds, apply, less, Except.map]

theorem eq_holds (hb : b.type ≠ .undefined) (hf : b.type ≠ .float) : eq.Holds a b ↔ a = b := by
  cases a <;> cases b <;> simp_all [Holds, apply, equal, Except.map, Value.type]

theorem mem_comparisons : op ∈ [lt, eq, gt] ↔ op = lt ∨ op = eq ∨ op = gt := by
  simp only [List.mem_cons, List.not_mem_nil, or_false]

/-- A type is ordered as keys of its values are. -/
theorem Orders.of_key {α β : Type} [LinearOrder β] {type : ValueType} (f : α → Value) (key : α → β)
    (hf : ∀ a, a.type = type → ∃ x, f x = a)
    (hlt : ∀ x y, lt.Holds (f x) (f y) ↔ key x < key y)
    (heq : ∀ x y, eq.Holds (f x) (f y) ↔ key x = key y) : Orders type where
  irrefl a ha := by
    obtain ⟨x, rfl⟩ := hf a ha
    rw [hlt]
    exact lt_irrefl _
  trans a b c ha hb hc := by
    obtain ⟨x, rfl⟩ := hf a ha
    obtain ⟨y, rfl⟩ := hf b hb
    obtain ⟨z, rfl⟩ := hf c hc
    rw [hlt, hlt, hlt]
    exact lt_trans
  trichotomy a b ha hb := by
    obtain ⟨x, rfl⟩ := hf a ha
    obtain ⟨y, rfl⟩ := hf b hb
    have hgt : gt.Holds (f x) (f y) ↔ key y < key x := hlt y x
    simp only [mem_comparisons]
    -- One comparison holds in each case, and either of the others would contradict it.
    rcases lt_trichotomy (key x) (key y) with h | h | h
    · refine ⟨lt, ⟨.inl rfl, (hlt x y).2 h⟩, ?_⟩
      rintro op ⟨rfl | rfl | rfl, ho⟩
      · rfl
      · exact absurd ((heq x y).1 ho) h.ne
      · exact absurd (hgt.1 ho) h.asymm
    · refine ⟨eq, ⟨.inr (.inl rfl), (heq x y).2 h⟩, ?_⟩
      rintro op ⟨rfl | rfl | rfl, ho⟩
      · exact absurd h ((hlt x y).1 ho).ne
      · rfl
      · exact absurd h.symm (hgt.1 ho).ne
    · refine ⟨gt, ⟨.inr (.inr rfl), hgt.2 h⟩, ?_⟩
      rintro op ⟨rfl | rfl | rfl, ho⟩
      · exact absurd ((hlt x y).1 ho) h.asymm
      · exact absurd ((heq x y).1 ho) h.ne'
      · rfl

theorem orders_bool : Orders .bool := by
  refine .of_key .bool id ?_ (fun _ _ ↦ lt_holds_bool) ?_
  · intro a ha
    cases a with
    | bool x => exact ⟨x, rfl⟩
    | _ => cases ha
  · intro x y
    rw [eq_holds (by exact nofun) (by exact nofun), Value.bool.injEq, id, id]

theorem orders_int : Orders .int := by
  refine .of_key .int Int64.toInt ?_ (fun _ _ ↦ lt_holds_int) ?_
  · intro a ha
    cases a with
    | int x => exact ⟨x, rfl⟩
    | _ => cases ha
  · intro x y
    rw [eq_holds (by exact nofun) (by exact nofun), Value.int.injEq, Int64.toInt_inj]

theorem orders_string : Orders .string := by
  refine .of_key .string id ?_ (fun _ _ ↦ lt_holds_string) ?_
  · intro a ha
    cases a with
    | string s => exact ⟨s, rfl⟩
    | _ => cases ha
  · intro s t
    rw [eq_holds (by exact nofun) (by exact nofun), Value.string.injEq, id, id]

theorem answers (hop : op ∈ [lt, eq, gt]) (h : op.accepts a.type b.type = true) :
    ∃ e, op.apply a b = .ok (.bool e) := by
  rcases mem_comparisons.1 hop with rfl | rfl | rfl
  -- A pair of types has an answer or is not accepted.
  all_goals
    cases a <;> cases b <;> first
      | exact ⟨_, rfl⟩
      | cases h

theorem answersIff (hop : op ∈ [lt, eq, gt])
    (hs : suitable ↔ op.accepts a.type b.type = true) : op.AnswersIff a b suitable where
  answer h := answers hop (hs.1 h)
  mismatch h := (apply_typed op a b).mismatch (Bool.eq_false_iff.2 fun ha ↦ h (hs.2 ha))

theorem AnswersIff.succeeds_iff (h : op.AnswersIff a b suitable) :
    (∃ x, op.apply a b = .ok x) ↔ suitable := by
  constructor
  · rintro ⟨x, hx⟩
    by_contra hn
    rw [h.mismatch hn] at hx
    cases hx
  · intro hs
    obtain ⟨e, he⟩ := h.answer hs
    exact ⟨_, he⟩

theorem type_eq_nil : a.type = .nil ↔ a = .nil := by
  cases a <;> simp [Value.type]

theorem type_ne_undefined : a.type ≠ .undefined ↔ a ≠ .undefined := by
  cases a <;> simp [Value.type]

theorem eq_answersIff (ha : a ≠ .undefined) :
    eq.AnswersIff a b (a.type = b.type ∨ a = .nil ∨ b = .nil) := by
  apply answersIff (by decide)
  rw [← type_ne_undefined] at ha
  rw [← type_eq_nil, ← type_eq_nil, accepts, ValueType.ordered]
  simp only [Bool.or_eq_true, Bool.and_eq_true, beq_iff_eq, bne_iff_ne]
  grind

theorem lt_answersIff (ha : a ≠ .undefined) :
    lt.AnswersIff a b (a.type = b.type ∧ a.type ≠ .nil) := by
  apply answersIff (by decide)
  rw [← type_ne_undefined] at ha
  rw [accepts, ValueType.ordered]
  simp only [Bool.and_eq_true, beq_iff_eq, bne_iff_ne]
  grind

/-- GT is LT the other way round. -/
theorem AnswersIff.gt (h : lt.AnswersIff b a suitable) : gt.AnswersIff a b suitable :=
  ⟨h.answer, h.mismatch⟩

theorem order_answersIff (ha : a ≠ .undefined) (hb : b ≠ .undefined) :
    ∀ op ∈ [lt, gt], op.AnswersIff a b (a.type = b.type ∧ a.type ≠ .nil) := by
  simp only [List.forall_mem_cons, List.not_mem_nil, false_implies, implies_true, and_true]
  refine ⟨lt_answersIff ha, ?_⟩
  have hsymm : (a.type = b.type ∧ a.type ≠ .nil) ↔ (b.type = a.type ∧ b.type ≠ .nil) := by grind
  rw [hsymm]
  exact (lt_answersIff hb).gt

theorem eq_apply_comm (hf : a.type ≠ .float) : eq.apply a b = eq.apply b a := by
  cases a <;> cases b <;> simp_all [apply, equal, Value.type, BEq.comm]

theorem compares (ha : a ≠ .undefined) (hb : b ≠ .undefined) : Compares a b where
  eq_answers := eq_answersIff ha
  order_answers := order_answersIff ha hb
  succeeds_comm op hop := by
    rcases List.mem_cons.1 hop with rfl | hop
    · rw [(eq_answersIff ha).succeeds_iff, (eq_answersIff hb).succeeds_iff]
      grind
    · rw [(order_answersIff ha hb op hop).succeeds_iff,
        (order_answersIff hb ha op hop).succeeds_iff]
      grind
  nil_left := by
    rw [Holds, eq_apply_comm (by exact nofun)]
    exact eq_holds (by exact nofun) (by exact nofun)
  nil_right := eq_holds (by exact nofun) (by exact nofun)
  identical hfa hfb := ⟨eq_apply_comm hfa, eq_holds (type_ne_undefined.2 hb) hfb⟩

end BinaryOp

namespace Machine

open BinaryOp Value

/-- A conditional jump to `target` is next, of these two values, that leaves `rest` as operands. -/
inductive JumpsOn (m : Machine) (c : Condition) (a b : Value) (target : Nat) : List Value → Prop
  | arguments {x y : Argument} {l : String} :
      m.Ahead [(.jumpIf c, [.label l, x, y])] → x.fits .symb = true → y.fits .symb = true →
      x.held m.frames = .ok a → y.held m.frames = .ok b → m.labels.target? l = some target →
      JumpsOn m c a b target m.operands
  | stack {l : String} {rest : List Value} :
      m.Ahead [(.jumpIfStack c, [.label l])] → m.operands = b :: a :: rest →
      m.labels.target? l = some target → JumpsOn m c a b target rest

/-- The jump fails where EQ does, and is taken where the answer of EQ is the one it asks for. -/
structure JumpsAsEq (m : Machine) (c : Condition) (a b : Value) (target : Nat) (rest : List Value) :
    Prop where
  fails : ∀ f, m.FailsWith 1 f ↔ eq.apply a b = .error f
  jumps : ∀ e, eq.apply a b = .ok (.bool e) → m.run 1 = ({ m with
    operands := rest
    executed := m.executed + 1
    pc := if e = true ↔ c = .eq then target else m.pc + 1 }, none)

variable {m : Machine} {c : Condition} {a b : Value} {target : Nat} {rest : List Value}

theorem JumpsOn.runs (h : JumpsOn m c a b target rest) :
    m.Runs 1 ((c.holds a b).map fun taken ↦ { m with
      operands := rest
      executed := m.executed + 1
      pc := if taken then target else m.pc + 1 }) := by
  cases h with
  | arguments hm hx hy ha hb ht =>
    have hr := jumpIf_runs hx hy hm
    simp only [Labels.seek_ok.2 ht, ha, hb, Except.ok_bind] at hr
    cases hc : c.holds a b <;> rwa [hc] at hr
  | stack hm ho ht =>
    have hr := jumpIfStack_runs hm ho
    simp only [Labels.seek_ok.2 ht, Except.ok_bind] at hr
    cases hc : c.holds a b <;> rwa [hc] at hr

theorem JumpsOn.jumpsAsEq (h : JumpsOn m c a b target rest) : JumpsAsEq m c a b target rest where
  fails f := by
    rw [h.runs.failsWith_iff, Condition.holds, BinaryOp.apply]
    cases equal a b <;> simp [Except.map]
  jumps e he := by
    obtain ⟨e', he', hbool⟩ := Except.map_eq_ok.1 he
    obtain rfl := Value.bool.inj hbool
    have htaken : (e' == (c == .eq)) = true ↔ (e' = true ↔ c = .eq) := by
      cases c <;> cases e' <;> decide
    have hr := h.runs
    rw [Condition.holds, he'] at hr
    simp only [Except.map, htaken] at hr
    exact hr

end Machine

open BinaryOp Machine

/-- LT orders the booleans, the integers and the strings, EQ is identity where there is no float,
and the conditional jumps do what EQ says. -/
theorem comparison_laws :
    (∀ t ∈ [ValueType.bool, .int, .string], Orders t) ∧
    (∀ a b, gt.apply a b = lt.apply b a) ∧
    (∀ s t : String,
      (lt.Holds (.string s) (.string t) ↔ Precedes Char.toNat s.toList t.toList) ∧
      (lt.Holds (.string s) (.string t) ↔ Precedes UInt8.toNat (utf8 s) (utf8 t))) ∧
    (∀ a b, a ≠ .undefined → b ≠ .undefined → Compares a b) ∧
    ∀ m c a b target rest, JumpsOn m c a b target rest → JumpsAsEq m c a b target rest := by
  refine ⟨?_, gt_apply, ?_, fun _ _ ↦ compares, fun _ _ _ _ _ _ ↦ JumpsOn.jumpsAsEq⟩
  · simp only [List.forall_mem_cons, List.not_mem_nil, false_implies, implies_true, and_true]
    exact ⟨orders_bool, orders_int, orders_string⟩
  · intro s t
    rw [lt_holds_string, precedes_utf8_iff, lt_iff_precedes]
    exact ⟨Iff.rfl, Iff.rfl⟩

/-- The second string is a supplementary character, which its surrogates would put first. -/
theorem comparison_laws_supplementary :
    (lt.Holds (.string "ﬁ") (.string "😀") ∧ ¬ lt.Holds (.string "😀") (.string "ﬁ")) ∧
    eq.apply .nil (.int 0) = .ok (.bool false) ∧
    (∃ m : Machine, JumpsOn m .neq .nil (.int 0) 2 [.bool true] ∧
      m.run 1 = ({ m with operands := [.bool true], executed := 1, pc := 2 }, none)) ∧
    ∃ m : Machine, JumpsOn m .eq (.bool true) (.int 1) 2 [] ∧ m.FailsWith 1 .typeMismatch := by
  let m : Machine := {
    program := ⟨[⟨1, .jumpIfStack .neq, [.label "l"]⟩, ⟨2, .label, [.label "l"]⟩], by simp⟩
    labels := ⟨[("l", 2)]⟩
    operands := [.int 0, .nil, .bool true] }
  let n : Machine := {
    program := ⟨[⟨1, .jumpIf .eq, [.label "l", .literal (.bool true), .literal (.int 1)]⟩,
      ⟨2, .label, [.label "l"]⟩], by simp⟩
    labels := ⟨[("l", 2)]⟩ }
  obtain ⟨horders, -, hstrings, hcompares, hjumps⟩ := comparison_laws
  have hlt : lt.Holds (.string "ﬁ") (.string "😀") :=
    (hstrings _ _).1.2 (.inr (.head (by decide) [] []))
  have hgt : ¬ lt.Holds (.string "😀") (.string "ﬁ") := by
    intro h
    have hstring := horders .string (by decide)
    exact hstring.irrefl _ rfl (hstring.trans _ _ _ rfl rfl rfl hlt h)
  have heq : eq.apply .nil (.int 0) = .ok (.bool false) := by
    have hnil := hcompares .nil (.int 0) nofun nofun
    obtain ⟨e, he⟩ := hnil.eq_answers.answer (.inr (.inl rfl))
    cases e with
    | false => exact he
    | true => cases (hnil.identical (by exact nofun) (by exact nofun)).2.1 he
  have hm : JumpsOn m .neq .nil (.int 0) 2 [.bool true] :=
    .stack ⟨[(.label, [.label "l"])], rfl⟩ rfl rfl
  have hn : JumpsOn n .eq (.bool true) (.int 1) 2 [] :=
    .arguments ⟨[(.label, [.label "l"])], rfl⟩ rfl rfl rfl rfl rfl
  refine ⟨⟨hlt, hgt⟩, heq, ⟨m, hm, ?_⟩, n, hn, ?_⟩
  · exact (hjumps _ _ _ _ _ _ hm).jumps false heq
  · exact ((hjumps _ _ _ _ _ _ hn).fails _).2 rfl

end ThreeAddress
