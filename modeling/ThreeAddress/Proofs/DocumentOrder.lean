import Mathlib
import ThreeAddress.Proofs.Format

namespace ThreeAddress.Markup

/-- Attributes with different keys may change places, and others than those with the given keys may
be added. -/
inductive AttributeEdit (keys : List String) :
    List (String × String) → List (String × String) → Prop
  | permute {before as bs after : List (String × String)} : as.Perm bs →
      (as.map Prod.fst).Nodup → AttributeEdit keys (before ++ as ++ after) (before ++ bs ++ after)
  | add {before after : List (String × String)} {a : String × String} : a.1 ∉ keys →
      AttributeEdit keys (before ++ after) (before ++ a :: after)

variable {as bs : List (String × String)} {keys : List String} {key : String}

theorem lookup_perm (h : as.Perm bs) (hn : (as.map Prod.fst).Nodup) :
    as.lookup key = bs.lookup key := by
  induction h with
  | nil => rfl
  | cons a _ ih => rw [List.lookup_cons, List.lookup_cons, ih (List.nodup_cons.1 hn).2]
  | swap a b l =>
    have hab : b.1 ≠ a.1 := by
      intro hab
      exact (List.nodup_cons.1 hn).1 (hab ▸ List.mem_cons_self)
    rw [List.lookup_cons, List.lookup_cons, List.lookup_cons, List.lookup_cons]
    by_cases hb : key = b.1
    · have ha : key ≠ a.1 := hb ▸ hab
      rw [beq_false_of_ne ha]
    · rw [beq_false_of_ne hb]
  | trans h₁ _ ih₁ ih₂ => exact (ih₁ hn).trans (ih₂ ((h₁.map _).nodup_iff.1 hn))

theorem AttributeEdit.lookup (h : AttributeEdit keys as bs) (hk : key ∈ keys) :
    as.lookup key = bs.lookup key := by
  cases h with
  | permute hp hn =>
    simp only [List.lookup_append, lookup_perm hp hn]
  | @add before after a ha =>
    have hne : key ≠ a.1 := by
      intro he
      exact ha (he ▸ hk)
    rw [List.lookup_append, List.lookup_append, List.lookup_cons, beq_false_of_ne hne]

namespace Element

/-- What stands in an argument element next to its text does not matter. -/
inductive ArgumentEdit : Element → Element → Prop
  | attributes {e : Element} {as : List (String × String)} :
      AttributeEdit ["type"] e.attributes as → ArgumentEdit e { e with attributes := as }
  | children {e : Element} {es : List Element} : ArgumentEdit e { e with children := es }

/-- The text does not matter, nor does the sequence of the children, one of which may be edited in
its turn. -/
inductive Edit (keys : List String) (child : Element → Element → Prop) : Element → Element → Prop
  | attributes {e : Element} {as : List (String × String)} : AttributeEdit keys e.attributes as →
      Edit keys child e { e with attributes := as }
  | text {e : Element} {s : String} : Edit keys child e { e with text := s }
  | permute {e : Element} {es : List Element} : e.children.Perm es →
      Edit keys child e { e with children := es }
  | child {e c c' : Element} {before after : List Element} : e.children = before ++ c :: after →
      child c c' → Edit keys child e { e with children := before ++ c' :: after }

def InstructionEdit : Element → Element → Prop := Edit ["opcode", "order"] ArgumentEdit

def ProgramEdit : Element → Element → Prop := Edit ["language"] InstructionEdit

/-- Elements of one name that denote the same. -/
structure Alike {α : Type} (D : Element → α → Prop) (e e' : Element) : Prop where
  name : e.name = e'.name
  denotes : ∀ a, D e a ↔ D e' a

/-- Two elements agree in their name and in the attributes with the given keys, and the children of
one are related to those of the other in some sequence. -/
structure Agree (keys : List String) (r : Element → Element → Prop) (e e' : Element) : Prop where
  name : e.name = e'.name
  attribute? : ∀ key ∈ keys, e.attribute? key = e'.attribute? key
  children : Relation.Comp (List.Forall₂ r) List.Perm e.children e'.children

variable {α : Type} {D : Element → α → Prop} {r child : Element → Element → Prop}
  {e e' : Element} {es es' : List Element} {l : List α}

theorem Alike.refl (e : Element) : Alike D e e := ⟨rfl, fun _ ↦ Iff.rfl⟩

theorem Alike.symm (h : Alike D e e') : Alike D e' e := ⟨h.name.symm, fun a ↦ (h.denotes a).symm⟩

theorem Alike.map_name (h : List.Forall₂ (Alike D) es es') :
    es.map Element.name = es'.map Element.name := by
  induction h with
  | nil => rfl
  | cons h _ ih => rw [List.map_cons, List.map_cons, h.name, ih]

theorem Alike.forall₂ (h : List.Forall₂ (Alike D) es es') (hd : List.Forall₂ D es l) :
    List.Forall₂ D es' l := by
  induction h generalizing l with
  | nil => exact hd
  | cons h _ ih =>
    cases hd with
    | cons ha hl => exact .cons ((h.denotes _).1 ha) (ih hl)

theorem Agree.symm (hr : ∀ {c c'}, r c c' → r c' c) (h : Agree keys r e e') :
    Agree keys r e' e := by
  refine ⟨h.name.symm, fun key hk ↦ (h.attribute? key hk).symm, ?_⟩
  obtain ⟨cs, hc, hp⟩ := h.children
  exact List.perm_comp_forall₂ hp.symm (hc.imp fun _ _ ↦ hr).flip

theorem Edit.agree (h : Edit keys child e e') (hr : ∀ c, r c c)
    (hc : ∀ {c c'}, child c c' → r c c') : Agree keys r e e' := by
  have hrefl (es : List Element) : List.Forall₂ r es es := List.forall₂_same.2 fun c _ ↦ hr c
  cases h with
  | attributes ha => exact ⟨rfl, fun key hk ↦ ha.lookup hk, _, hrefl _, .refl _⟩
  | text => exact ⟨rfl, fun _ _ ↦ rfl, _, hrefl _, .refl _⟩
  | permute hp => exact ⟨rfl, fun _ _ ↦ rfl, _, hrefl _, hp⟩
  | @child c c' before after he h =>
    refine ⟨rfl, fun _ _ ↦ rfl, _, ?_, .refl _⟩
    rw [he]
    exact List.rel_append (hrefl before) (.cons (hc h) (hrefl after))

theorem ArgumentEdit.alike (h : ArgumentEdit e e') : Alike DenotesArgument e e' := by
  cases h with
  | attributes ha =>
    refine ⟨rfl, fun a ↦ ?_⟩
    have ht := ha.lookup (List.mem_singleton_self "type")
    simp only [DenotesArgument, Element.attribute?, ht]
  | children => exact ⟨rfl, fun _ ↦ Iff.rfl⟩

theorem Agree.denotesInstruction {i : Instruction}
    (h : Agree ["opcode", "order"] (Alike DenotesArgument) e e') (hi : e.DenotesInstruction i) :
    e'.DenotesInstruction i := by
  obtain ⟨cs, hc, hp⟩ := h.children
  obtain ⟨slots, hs, hn, hd⟩ := hi.arguments
  obtain ⟨slots', ha, hs'⟩ := List.perm_comp_forall₂ hs hc
  refine ⟨h.name ▸ hi.name, ?_, ?_, ⟨slots', hs'.trans hp, ?_, Alike.forall₂ ha hd⟩, hi.fits⟩
  · rw [← h.attribute? "opcode" (by decide)]
    exact hi.opcode
  · rw [← h.attribute? "order" (by decide)]
    exact hi.order
  · rw [← Alike.map_name ha]
    exact hn

theorem InstructionEdit.alike (h : InstructionEdit e e') : Alike DenotesInstruction e e' := by
  have ha : Agree ["opcode", "order"] (Alike DenotesArgument) e e' :=
    Edit.agree h Alike.refl ArgumentEdit.alike
  exact ⟨ha.name, fun i ↦ ⟨ha.denotesInstruction, (ha.symm Alike.symm).denotesInstruction⟩⟩

/-- The instructions may come in another sequence. -/
theorem Agree.denotesProgram {l : List Instruction}
    (h : Agree ["language"] (Alike DenotesInstruction) e e') (hl : e.DenotesProgram l) :
    ∃ l', l.Perm l' ∧ e'.DenotesProgram l' := by
  obtain ⟨cs, hc, hp⟩ := h.children
  obtain ⟨l', hd, hl'⟩ := List.perm_comp_forall₂ hp.symm (Alike.forall₂ hc hl.instructions)
  refine ⟨l', hl'.symm, h.name ▸ hl.name, ?_, hd, (hl'.map _).nodup_iff.2 hl.orders⟩
  rw [← h.attribute? "language" (by decide)]
  exact hl.language

theorem Agree.toProgram_ok {p : Program}
    (h : Agree ["language"] (Alike DenotesInstruction) e e') (hp : e.toProgram = .ok p) :
    e'.toProgram = .ok p := by
  obtain ⟨l, hl, hp⟩ := toProgram_eq_ok.1 hp
  obtain ⟨l', hll, hl'⟩ := h.denotesProgram hl
  obtain ⟨hpl, hs⟩ := (Program.eq_ofList_iff hl.orders).1 hp
  exact toProgram_eq_ok.2 ⟨l', hl', (Program.eq_ofList_iff hl'.orders).2 ⟨hpl.trans hll, hs⟩⟩

theorem ProgramEdit.toProgram_eq_ok {p : Program} (h : ProgramEdit e e') :
    e.toProgram = .ok p ↔ e'.toProgram = .ok p := by
  have ha : Agree ["language"] (Alike DenotesInstruction) e e' :=
    Edit.agree h Alike.refl InstructionEdit.alike
  exact ⟨ha.toProgram_ok, (ha.symm Alike.symm).toProgram_ok⟩

/-- The sequence of instructions, of arguments and of attributes in a document does not matter, nor
does what is not looked at. -/
theorem document_order_irrelevant {t t' : Element} (h : Relation.ReflTransGen ProgramEdit t t') :
    (∀ p, t.toProgram = .ok p ↔ t'.toProgram = .ok p) ∧
      ((∃ p, t.toProgram = .ok p) ↔ ∃ p, t'.toProgram = .ok p) := by
  have hp (p : Program) : t.toProgram = .ok p ↔ t'.toProgram = .ok p := by
    induction h with
    | refl => exact Iff.rfl
    | tail _ he ih => exact ih.trans he.toProgram_eq_ok
  exact ⟨hp, exists_congr hp⟩

/-- The document `shuffled` in sequence, with an attribute and a text of its own and with an element
inside an argument. -/
def arranged : Element where
  name := "program"
  attributes := [("name", "test"), ("version", "2"), ("language", "ippcode22")]
  children := [
    { name := "instruction"
      attributes := [("order", "1"), ("opcode", "DefVar")]
      children := [
        { name := "arg1", attributes := [("type", "var")], children := [{ name := "b" }]
          text := "GF@x" }] },
    { name := "instruction"
      attributes := [("order", " +07 "), ("opcode", "move")]
      children := [
        { name := "arg1", attributes := [("type", "var")], text := "GF@x" },
        { name := "arg2", attributes := [("type", "int")], text := "-1" }] }]
  text := "end"

theorem shuffled_arranged : Relation.ReflTransGen ProgramEdit shuffled arranged := by
  have ha : AttributeEdit ["opcode", "order"] ([] ++ [("opcode", "DefVar"), ("order", "1")] ++ [])
      ([] ++ [("order", "1"), ("opcode", "DefVar")] ++ []) := .permute (.swap _ _ []) (by decide)
  have hx : ArgumentEdit { name := "arg1", attributes := [("type", "var")], text := "GF@x" }
      { name := "arg1", attributes := [("type", "var")], children := [{ name := "b" }]
        text := "GF@x" } := .children
  have hv : AttributeEdit ["language"] ([("name", "test")] ++ [("language", "ippcode22")])
      ([("name", "test")] ++ ("version", "2") :: [("language", "ippcode22")]) := .add (by decide)
  refine .head (.permute (.swap _ _ _)) ?_
  refine .head (.child (show _ = [_] ++ _ :: [] from rfl) (.permute (.swap _ _ _))) ?_
  refine .head (.child (show _ = [] ++ _ :: [_] from rfl) (.attributes ha)) ?_
  refine .head (.child (show _ = [] ++ _ :: [_] from rfl)
    (.child (show _ = [] ++ _ :: [] from rfl) hx)) ?_
  refine .head (.attributes hv) ?_
  exact .single .text

theorem document_order_irrelevant_arranged :
    Relation.ReflTransGen ProgramEdit shuffled arranged ∧
      ∃ p, shuffled.toProgram = .ok p ∧ arranged.toProgram = .ok p := by
  have hp := toProgram_eq_ok.2 ⟨_, shuffled_denotes, rfl⟩
  exact ⟨shuffled_arranged, _, hp, ((document_order_irrelevant shuffled_arranged).1 _).1 hp⟩

end Element

end ThreeAddress.Markup
