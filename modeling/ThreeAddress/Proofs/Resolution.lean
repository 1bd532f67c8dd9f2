import Mathlib.Data.List.Induction
import Mathlib.Order.Bounds.Basic
import ThreeAddress.Proofs.Labels

namespace ThreeAddress

namespace Instruction

/-- The label that stands for the place behind the instruction. -/
def defines? (i : Instruction) : Option String := if i.opcode = .label then i.label? else none

/-- The label that the run may go on at. -/
def refersTo? (i : Instruction) : Option String :=
  if i.opcode.referencesLabel then i.label? else none

end Instruction

namespace Labels

def Defines (l : List Instruction) (k : Nat) (name : String) : Prop :=
  ∃ i, l[k]? = some i ∧ i.defines? = some name

def Refers (l : List Instruction) (k : Nat) (name : String) : Prop :=
  ∃ i, l[k]? = some i ∧ i.refersTo? = some name

/-- A label is defined that has been defined before. -/
def Repeats (l : List Instruction) (k : Nat) : Prop :=
  ∃ name, Defines l k name ∧ ∃ j < k, Defines l j name

/-- A label is referred to that is defined nowhere. -/
def Dangles (l : List Instruction) (k : Nat) : Prop :=
  ∃ name, Refers l k name ∧ ∀ j, ¬ Defines l j name

structure Resolvable (l : List Instruction) : Prop where
  once : ∀ j k name, Defines l j name → Defines l k name → j = k
  defined : ∀ k name, Refers l k name → ∃ j, Defines l j name

/-- The table leads from each label to the place behind its definition, and has nothing else. -/
structure Tabulates (t : Labels) (l : List Instruction) : Prop where
  target : ∀ name n, t.target? name = some n ↔ ∃ k, Defines l k name ∧ n = k + 1
  length : t.targets.length = l.countP fun i ↦ i.defines?.isSome

/-- What is wrong with the labels. A repeated one is found before any that is not defined. -/
inductive Complaint (l : List Instruction) : RuntimeError → Prop
  | duplicate {k : Nat} {i : Instruction} {name : String} : IsLeast {k | Repeats l k} k →
      l[k]? = some i → i.defines? = some name →
      Complaint l (.ofInstruction i (.duplicateLabel name))
  | undefined {k : Nat} {i : Instruction} {name : String} : (∀ k, ¬ Repeats l k) →
      IsLeast {k | Dangles l k} k → l[k]? = some i → i.refersTo? = some name →
      Complaint l (.ofInstruction i (.undefinedLabel name))

variable {l : List Instruction} {i : Instruction} {j k : Nat} {name : String} {t : Labels}
  {e e' : RuntimeError}

theorem Defines.lt (h : Defines l k name) : k < l.length := by
  obtain ⟨i, hi, -⟩ := h
  exact (List.getElem?_eq_some_iff.1 hi).1

theorem defines_concat :
    Defines (l ++ [i]) k name ↔ Defines l k name ∨ k = l.length ∧ i.defines? = some name := by
  rcases Nat.lt_trichotomy k l.length with hk | rfl | hk
  · simp [Defines, List.getElem?_append_left hk, Nat.ne_of_lt hk]
  · simp [Defines]
  · simp [Defines, List.getElem?_append_right (Nat.le_of_lt hk), Nat.ne_of_gt hk,
      List.getElem?_eq_none (Nat.le_of_lt hk), Nat.sub_ne_zero_of_lt hk]

theorem repeats_concat : Repeats (l ++ [i]) k ↔
    Repeats l k ∨ k = l.length ∧ ∃ name, i.defines? = some name ∧ ∃ j, Defines l j name := by
  constructor
  · rintro ⟨name, hk, j, hjk, hj⟩
    have hl : k ≤ l.length := Nat.le_of_lt_succ (by simpa using hk.lt)
    have hj : Defines l j name := by
      rcases defines_concat.1 hj with hj | ⟨rfl, -⟩
      · exact hj
      · exact absurd hl (Nat.not_le_of_lt hjk)
    rcases defines_concat.1 hk with hk | ⟨rfl, hi⟩
    · exact .inl ⟨name, hk, j, hjk, hj⟩
    · exact .inr ⟨rfl, name, hi, j, hj⟩
  · rintro (⟨name, hk, j, hjk, hj⟩ | ⟨rfl, name, hi, j, hj⟩)
    · exact ⟨name, defines_concat.2 (.inl hk), j, hjk, defines_concat.2 (.inl hj)⟩
    · exact ⟨name, defines_concat.2 (.inr ⟨rfl, hi⟩), j, hj.lt, defines_concat.2 (.inl hj)⟩

theorem define_of_none (h : i.defines? = none) : t.define i k = .ok t := by
  simp only [Instruction.defines?] at h
  rw [define.eq_def]
  split
  · next name ho hl => simp [ho, hl] at h
  · rfl

theorem define_of_some (h : i.defines? = some name) :
    t.define i k = match t.target? name with
      | some _ => .error (.ofInstruction i (.duplicateLabel name))
      | none => .ok ⟨(name, k + 1) :: t.targets⟩ := by
  simp only [Instruction.defines?, Option.ite_none_right_eq_some] at h
  cases ht : t.target? name <;> simp only [define, h, ht]

theorem unresolved?_eq : t.unresolved? i = match i.refersTo? with
    | some name =>
      if (t.target? name).isNone then some (.ofInstruction i (.undefinedLabel name)) else none
    | none => none := by
  simp only [unresolved?, Instruction.refersTo?]
  cases i.label? <;> cases i.opcode.referencesLabel <;> rfl

namespace Tabulates

theorem target?_eq_none (ht : t.Tabulates l) : t.target? name = none ↔ ∀ j, ¬ Defines l j name := by
  rw [Option.eq_none_iff_forall_ne_some]
  constructor
  · exact fun h j hj ↦ h (j + 1) ((ht.target name _).2 ⟨j, hj, rfl⟩)
  · intro h n hn
    obtain ⟨j, hj, -⟩ := (ht.target name n).1 hn
    exact h j hj

theorem unresolved?_eq_some (ht : t.Tabulates l) : t.unresolved? i = some e ↔
    ∃ name, i.refersTo? = some name ∧ (∀ j, ¬ Defines l j name) ∧
      e = .ofInstruction i (.undefinedLabel name) := by
  rw [unresolved?_eq]
  cases hi : i.refersTo? with
  | none => simp
  | some name => simp [← ht.target?_eq_none, eq_comm (a := e)]

/-- One instruction is added to those whose labels are in the table. -/
theorem define (ht : t.Tabulates l) :
    (∃ t', t.define i l.length = .ok t' ∧ t'.Tabulates (l ++ [i]) ∧
        ¬ Repeats (l ++ [i]) l.length) ∨
      ∃ name, i.defines? = some name ∧ Repeats (l ++ [i]) l.length ∧
        t.define i l.length = .error (.ofInstruction i (.duplicateLabel name)) := by
  have hlast : ¬ Repeats l l.length := fun ⟨_, h, _⟩ ↦ Nat.lt_irrefl _ h.lt
  cases hi : i.defines? with
  | none =>
    refine .inl ⟨t, define_of_none hi, ⟨fun key n ↦ ?_, ?_⟩, ?_⟩
    · simp [ht.target, defines_concat, hi]
    · simp [ht.length, hi]
    · simp [repeats_concat, hlast, hi]
  | some name =>
    rw [define_of_some hi]
    cases hn : t.target? name with
    | some n =>
      obtain ⟨k, hk, -⟩ := (ht.target name n).1 hn
      exact .inr ⟨name, rfl, repeats_concat.2 (.inr ⟨rfl, name, hi, k, hk⟩), rfl⟩
    | none =>
      have hnew := ht.target?_eq_none.1 hn
      refine .inl ⟨_, rfl, ⟨fun key n ↦ ?_, ?_⟩, ?_⟩
      · by_cases hkey : key = name
        · subst hkey
          simp [target?, defines_concat, hi, hnew, eq_comm]
        · have hne : (key == name) = false := beq_eq_false_iff_ne.2 hkey
          have ht' := ht.target key n
          rw [target?] at ht'
          simp [target?, List.lookup_cons, hne, ht', defines_concat, hi, Ne.symm hkey]
      · simp [ht.length, hi]
      · simp [repeats_concat, hlast, hi, hnew]

end Tabulates

/-- The labels of any first part of a program are in the table, or a repeated one has been found. -/
theorem defineAll_cases (l : List Instruction) :
    (∃ t, l.zipIdx.foldlM (fun t i ↦ define t i.1 i.2) {} = .ok t ∧ t.Tabulates l ∧
        ∀ k, ¬ Repeats l k) ∨
      ∃ k i name, IsLeast {k | Repeats l k} k ∧ l[k]? = some i ∧ i.defines? = some name ∧
        l.zipIdx.foldlM (fun t i ↦ define t i.1 i.2) {} =
          .error (.ofInstruction i (.duplicateLabel name)) := by
  -- The scan goes from the first instruction on, so that the list grows at its end.
  induction l using List.reverseRecOn with
  | nil =>
    refine .inl ⟨{}, rfl, ⟨fun name n ↦ ?_, rfl⟩, fun k ↦ ?_⟩
    · simp [target?, Defines]
    · simp [Repeats, Defines]
  | append_singleton l i ih =>
    simp only [List.zipIdx_append, Nat.zero_add, List.zipIdx_singleton, List.foldlM_append,
      List.foldlM_cons, List.foldlM_nil, bind_pure]
    rcases ih with ⟨t, hf, ht, hn⟩ | ⟨k, i', name, hk, hi', hname, hf⟩
    · rw [hf, Except.ok_bind]
      rcases ht.define (i := i) with ⟨t', hd, ht', hr⟩ | ⟨name, hi, hr, hd⟩
      · refine .inl ⟨t', hd, ht', fun k hk ↦ ?_⟩
        rcases repeats_concat.1 hk with hk | ⟨rfl, -⟩
        · exact hn k hk
        · exact hr hk
      · refine .inr ⟨l.length, i, name, ⟨hr, fun k hk ↦ ?_⟩, by simp, hi, hd⟩
        rcases repeats_concat.1 hk with hk | ⟨rfl, -⟩
        · exact absurd hk (hn k)
        · exact Nat.le_refl _
    · refine .inr ⟨k, i', name, ⟨repeats_concat.2 (.inl hk.1), fun j hj ↦ ?_⟩, ?_, hname, ?_⟩
      · rcases repeats_concat.1 hj with hj | ⟨rfl, -⟩
        · exact hk.2 hj
        · exact Nat.le_of_lt (List.getElem?_eq_some_iff.1 hi').1
      · rw [List.getElem?_append_left (List.getElem?_eq_some_iff.1 hi').1, hi']
      · rw [hf, Except.error_bind]

/-- With the table complete, the first reference that leads nowhere is found. -/
theorem unresolved_cases (ht : t.Tabulates l) :
    l.findSome? t.unresolved? = none ∧ (∀ k, ¬ Dangles l k) ∨
      ∃ k i name, IsLeast {k | Dangles l k} k ∧ l[k]? = some i ∧ i.refersTo? = some name ∧
        l.findSome? t.unresolved? = some (.ofInstruction i (.undefinedLabel name)) := by
  have hd : ∀ k, Dangles l k ↔ ∃ i e, l[k]? = some i ∧ t.unresolved? i = some e := by
    intro k
    simp only [ht.unresolved?_eq_some, Dangles, Refers]
    constructor
    · rintro ⟨name, ⟨i, hi, hname⟩, hn⟩
      exact ⟨i, _, hi, name, hname, hn, rfl⟩
    · rintro ⟨i, _, hi, name, hname, hn, -⟩
      exact ⟨name, ⟨i, hi, hname⟩, hn⟩
  cases hf : l.findSome? t.unresolved? with
  | none =>
    refine .inl ⟨rfl, fun k hk ↦ ?_⟩
    obtain ⟨i, e, hi, he⟩ := (hd k).1 hk
    rw [List.findSome?_eq_none_iff.1 hf i (List.mem_of_getElem? hi)] at he
    cases he
  | some e =>
    obtain ⟨l₁, i, l₂, rfl, hi, hl₁⟩ := List.findSome?_eq_some_iff.1 hf
    obtain ⟨name, hname, -, rfl⟩ := ht.unresolved?_eq_some.1 hi
    have hget : (l₁ ++ i :: l₂)[l₁.length]? = some i := by simp
    refine .inr ⟨l₁.length, i, name, ⟨(hd _).2 ⟨i, _, hget, hi⟩, fun k hk ↦ ?_⟩, hget, hname, rfl⟩
    obtain ⟨i', e, hi', he⟩ := (hd k).1 hk
    refine Nat.le_of_not_lt fun hlt ↦ ?_
    rw [List.getElem?_append_left hlt] at hi'
    rw [hl₁ i' (List.mem_of_getElem? hi')] at he
    cases he

theorem resolvable_iff : Resolvable l ↔ (∀ k, ¬ Repeats l k) ∧ ∀ k, ¬ Dangles l k := by
  constructor
  · intro h
    refine ⟨fun k ⟨name, hk, j, hjk, hj⟩ ↦ ?_, fun k ⟨name, hk, hn⟩ ↦ ?_⟩
    · exact Nat.ne_of_lt hjk (h.once j k name hj hk)
    · obtain ⟨j, hj⟩ := h.defined k name hk
      exact hn j hj
  · rintro ⟨hr, hd⟩
    refine ⟨fun j k name hj hk ↦ ?_, fun k name hk ↦ ?_⟩
    · rcases Nat.lt_trichotomy j k with hlt | rfl | hlt
      · exact absurd ⟨name, hk, j, hlt, hj⟩ (hr k)
      · rfl
      · exact absurd ⟨name, hj, k, hlt, hk⟩ (hr j)
    · exact not_forall_not.1 fun hn ↦ hd k ⟨name, hk, hn⟩

theorem Complaint.not_resolvable (h : Complaint l e) : ¬ Resolvable l := by
  rw [resolvable_iff]
  rintro ⟨hr, hd⟩
  cases h with
  | duplicate hk => exact hr _ hk.1
  | undefined _ hk => exact hd _ hk.1

theorem Complaint.unique (h : Complaint l e) (h' : Complaint l e') : e = e' := by
  cases h with
  | duplicate hk hi hname =>
    cases h' with
    | duplicate hk' hi' hname' =>
      obtain rfl := hk.unique hk'
      obtain rfl := Option.some_inj.1 (hi.symm.trans hi')
      rw [Option.some_inj.1 (hname.symm.trans hname')]
    | undefined hr => exact absurd hk.1 (hr _)
  | undefined hr hk hi hname =>
    cases h' with
    | duplicate hk' => exact absurd hk'.1 (hr _)
    | undefined _ hk' hi' hname' =>
      obtain rfl := hk.unique hk'
      obtain rfl := Option.some_inj.1 (hi.symm.trans hi')
      rw [Option.some_inj.1 (hname.symm.trans hname')]

theorem resolve_cases (p : Program) :
    (∃ t, resolve p = .ok t ∧ t.Tabulates p.instructions ∧ Resolvable p.instructions) ∨
      ∃ e, resolve p = .error e ∧ Complaint p.instructions e := by
  rw [resolve]
  rcases defineAll_cases p.instructions with ⟨t, hf, ht, hr⟩ | ⟨k, i, name, hk, hi, hname, hf⟩
  · rw [hf, Except.ok_bind]
    rcases unresolved_cases ht with ⟨hu, hd⟩ | ⟨k, i, name, hk, hi, hname, hu⟩
    · rw [hu]
      exact .inl ⟨t, rfl, ht, resolvable_iff.2 ⟨hr, hd⟩⟩
    · rw [hu]
      exact .inr ⟨_, rfl, .undefined hr hk hi hname⟩
  · rw [hf, Except.error_bind]
    exact .inr ⟨_, rfl, .duplicate hk hi hname⟩

/-- Labels are resolved exactly if each is defined once and each that is referred to is defined, be
it before or behind. Otherwise the complaint is about the first label that is defined again, and
only if there is none about the first reference that leads nowhere. -/
theorem resolve_exact (p : Program) :
    ((∃ t, resolve p = .ok t) ↔ Resolvable p.instructions) ∧
      (∀ t, resolve p = .ok t → t.Tabulates p.instructions) ∧
      ∀ e, resolve p = .error e ↔ Complaint p.instructions e := by
  rcases resolve_cases p with ⟨t, hp, ht, hr⟩ | ⟨e, hp, hc⟩
  · rw [hp]
    refine ⟨⟨fun _ ↦ hr, fun _ ↦ ⟨t, rfl⟩⟩, ?_, fun e ↦ ⟨?_, fun hc ↦ ?_⟩⟩
    · intro t' h
      cases h
      exact ht
    · intro h
      cases h
    · exact absurd hr hc.not_resolvable
  · rw [hp]
    refine ⟨⟨?_, fun hr ↦ absurd hr hc.not_resolvable⟩, ?_, fun e' ↦ ⟨?_, fun hc' ↦ ?_⟩⟩
    · rintro ⟨t, h⟩
      cases h
    · intro t h
      cases h
    · intro h
      cases h
      exact hc
    · rw [hc.unique hc']

example : resolve (.ofList [⟨1, .jump, [.label "b"]⟩, ⟨2, .label, [.label "a"]⟩,
    ⟨3, .label, [.label "a"]⟩]) = .error ⟨.duplicateLabel "a", 3, .label⟩ := by
  cbv

end Labels

end ThreeAddress
