import ThreeAddress.Proofs.Described
import ThreeAddress.Proofs.FailedStep
import ThreeAddress.Proofs.Footprint
import ThreeAddress.Proofs.Nesting
import ThreeAddress.Proofs.Spelling

namespace ThreeAddress

open Text

namespace Text

variable {c d : Char} {s : List Char} {ls : List (List Char)}

theorem mem_intercalate (h : c ∈ [d].intercalate ls) : c = d ∨ ∃ l ∈ ls, c ∈ l := by
  induction ls with
  | nil => cases h
  | cons l ls ih =>
    cases ls with
    | nil =>
      rw [List.intercalate_singleton] at h
      exact .inr ⟨l, List.mem_cons_self, h⟩
    | cons l' ls =>
      rw [List.intercalate_cons_cons, List.mem_append, List.mem_append, List.mem_singleton] at h
      rcases h with (h | h) | h
      · exact .inr ⟨l, List.mem_cons_self, h⟩
      · exact .inl h
      · exact (ih h).imp_right fun ⟨k, hk, hc⟩ ↦ ⟨k, List.mem_cons_of_mem l hk, hc⟩

theorem intercalate_cons (c : Char) (s : List Char) (ls : List (List Char)) :
    [c].intercalate (s :: ls) = s ++ ls.flatMap (c :: ·) := by
  induction ls generalizing s with
  | nil => rw [List.intercalate_singleton, List.flatMap_nil, List.append_nil]
  | cons l ls ih =>
    simp only [List.intercalate_cons_cons, ih, List.flatMap_cons, List.append_assoc,
      List.cons_append, List.nil_append]

theorem intercalate_concat (c : Char) (ls : List (List Char)) :
    [c].intercalate (ls ++ [[]]) = ls.flatMap (· ++ [c]) := by
  induction ls with
  | nil => rfl
  | cons l ls ih =>
    rw [List.flatMap_cons, ← ih]
    cases ls with
    | nil => rw [List.singleton_append, List.nil_append, List.intercalate_cons_cons]
    | cons l' ls => rw [List.cons_append, List.cons_append, List.intercalate_cons_cons]

theorem toString_string (s : String) : toString s = s := rfl

/-- The words of a text, line by line. -/
def wordsByLine (s : List Char) : List (List (List Char)) := (s.splitOn '\n').map (·.splitOn ' ')

end Text

namespace Frame

def entryWord (p : String × Value) : String := p.1 ++ "=" ++ p.2.describe

/-- The words that a report has about a frame. -/
def words (name : String) : Option Frame → List String
  | none => [name ++ ":", "<not", "created>"]
  | some f => (name ++ ":") :: if f.entries.isEmpty then ["<empty>"] else f.entries.map entryWord

def canonical (f : Frame) : Frame := ⟨f.entries.map fun p ↦ (p.1, p.2.canonical)⟩

end Frame

namespace Machine

def reportWords (m : Machine) : List (List String) :=
  [["--", "BREAK", "--"],
    ["position:", toString (m.pc + 1), "(order",
      toString ((m.instruction?.map Instruction.order).getD 0) ++ ")"],
    ["executed:", toString m.executed],
    Frame.words "GF" (m.frames.frame? .gf),
    Frame.words "LF" (m.frames.frame? .lf),
    Frame.words "TF" (m.frames.frame? .tf),
    ["frame", "stack", "depth:", toString m.frames.depth],
    ["data", "stack", s!"({m.operands.length}):"] ++ m.operands.reverse.map Value.describe,
    ["call", "stack", "depth:", toString m.calls.length],
    ["-----------"]]

variable {m m' : Machine}

theorem toList_report (m : Machine) :
    m.report.toList = m.reportLines.flatMap fun l ↦ l.toList ++ ['\n'] := by
  have h (l : List String) (t : String) : (l.foldl (fun t line ↦ t ++ line ++ "\n") t).toList =
      t.toList ++ l.flatMap fun l ↦ l.toList ++ ['\n'] := by
    induction l generalizing t with
    | nil => simp
    | cons a l ih => simp [ih]
  rw [report, h]
  rfl

theorem toList_foldl_words {α : Type} {f : α → String} {g : α → List Char}
    (h : ∀ a, (f a).toList = ' ' :: g a) (l : List α) (t : String) :
    (l.foldl (fun t a ↦ t ++ f a) t).toList = [' '].intercalate (t.toList :: l.map g) := by
  induction l generalizing t with
  | nil => rw [List.foldl_nil, List.map_nil, List.intercalate_singleton]
  | cons a l ih =>
    simp only [List.foldl_cons, ih, String.toList_append, h, intercalate_cons, List.map_cons,
      List.flatMap_cons, List.append_assoc]

theorem toList_frameReport (name : String) (f : Option Frame) :
    (Frame.report name f).toList = [' '].intercalate ((Frame.words name f).map String.toList) := by
  cases f with
  | none => simp [Frame.report, Frame.words, List.intercalate_cons_cons, toString_string]
  | some f =>
    simp only [Frame.report, Frame.words]
    split
    · simp [List.intercalate_cons_cons, toString_string]
    · rw [toList_foldl_words (g := fun p ↦ (Frame.entryWord p).toList), List.map_cons, List.map_map]
      · simp [toString_string, Function.comp_def]
      · simp [toString_string, Frame.entryWord]

theorem toList_operandLine (l : List Value) :
    (l.foldr (fun x t ↦ t ++ s!" {x.describe}") s!"data stack ({l.length}):").toList =
      [' '].intercalate ((["data", "stack", s!"({l.length}):"] ++
        l.reverse.map Value.describe).map String.toList) := by
  have h := toList_foldl_words (f := fun x ↦ s!" {x.describe}") (g := fun x ↦ x.describe.toList)
    (by simp [toString_string]) l.reverse s!"data stack ({l.length}):"
  rw [List.foldl_reverse] at h
  rw [h]
  simp [intercalate_cons, toString_string, Function.comp_def]

theorem reportLines_eq (m : Machine) : m.reportLines.map String.toList =
    m.reportWords.map fun ws ↦ [' '].intercalate (ws.map String.toList) := by
  simp only [reportLines, reportWords, List.map_cons, List.map_nil, toList_frameReport,
    toList_operandLine]
  simp [List.intercalate_cons_cons, toString_string]

theorem reportLines_unbroken (h : ∀ ws ∈ m.reportWords, ∀ w ∈ ws, Unbroken w.toList) :
    ∀ l ∈ m.reportLines, '\n' ∉ l.toList := by
  intro l hl hn
  have hm : l.toList ∈ m.reportLines.map String.toList := List.mem_map_of_mem hl
  rw [reportLines_eq] at hm
  obtain ⟨ws, hws, he⟩ := List.mem_map.1 hm
  rw [← he] at hn
  rcases mem_intercalate hn with hn | ⟨s, hs, hn⟩
  · cases hn
  · obtain ⟨w, hw, rfl⟩ := List.mem_map.1 hs
    exact (h ws hws w hw).not_mem rfl hn

theorem reportWords_ne_nil : ∀ ws ∈ m.reportWords, ws ≠ [] := by
  have hf (name : String) (f : Option Frame) : Frame.words name f ≠ [] := by
    cases f <;> exact List.cons_ne_nil _ _
  simp [reportWords, hf]

theorem splitOn_report (h : ∀ l ∈ m.reportLines, '\n' ∉ l.toList) :
    m.report.toList.splitOn '\n' = m.reportLines.map String.toList ++ [[]] := by
  have ht : m.report.toList = ['\n'].intercalate (m.reportLines.map String.toList ++ [[]]) := by
    rw [toList_report, intercalate_concat, List.flatMap_map]
  have hne : m.reportLines.map String.toList ++ [[]] ≠ [] :=
    List.append_ne_nil_of_right_ne_nil _ (List.cons_ne_nil _ _)
  rw [ht, List.splitOn_intercalate '\n' ?_ hne]
  intro l hl
  rcases List.mem_append.1 hl with hl | hl
  · obtain ⟨t, ht, rfl⟩ := List.mem_map.1 hl
    exact h t ht
  · rw [List.mem_singleton.1 hl]
    exact List.not_mem_nil

theorem splitOn_words {ws : List String} (hn : ws ≠ []) (h : ∀ w ∈ ws, Unbroken w.toList) :
    ([' '].intercalate (ws.map String.toList)).splitOn ' ' = ws.map String.toList := by
  refine List.splitOn_intercalate ' ' (fun l hl ↦ ?_) (mt List.map_eq_nil_iff.1 hn)
  obtain ⟨w, hw, rfl⟩ := List.mem_map.1 hl
  exact (h w hw).not_mem rfl

/-- The words of a report can be told apart, when none of them is broken. -/
theorem wordsByLine_report (h : ∀ ws ∈ m.reportWords, ∀ w ∈ ws, Unbroken w.toList) :
    wordsByLine m.report.toList = m.reportWords.map (·.map String.toList) ++ [[[]]] := by
  have hs : m.reportWords.map
      ((·.splitOn ' ') ∘ fun ws ↦ [' '].intercalate (ws.map String.toList)) =
        m.reportWords.map (·.map String.toList) :=
    List.map_congr_left fun ws hws ↦ splitOn_words (reportWords_ne_nil ws hws) (h ws hws)
  rw [wordsByLine, splitOn_report (reportLines_unbroken h), List.map_append, reportLines_eq,
    List.map_map, hs, List.map_singleton, List.splitOn_nil]

end Machine

theorem of_mem_isIdentifier {s : List Char} {c : Char} (h : isIdentifier s = true) (hc : c ∈ s) :
    (c.isAlphanum || isSpecial c) = true := by
  cases s with
  | nil => cases h
  | cons d s =>
    rw [isIdentifier, Bool.and_eq_true, List.all_eq_true] at h
    rcases List.mem_cons.1 hc with rfl | hc
    · rw [Char.isAlphanum, Bool.or_right_comm, h.1, Bool.true_or]
    · exact h.2 c hc

theorem unbroken_of_isIdentifier {s : List Char} (h : isIdentifier s = true) : Unbroken s := by
  intro c hc
  have ha := of_mem_isIdentifier h hc
  rw [isBreak, Bool.or_eq_false_iff, beq_eq_false_iff_ne, beq_eq_false_iff_ne]
  constructor
  · rintro rfl
    cases ha
  · rintro rfl
    cases ha

theorem equals_not_mem {s : List Char} (h : isIdentifier s = true) : '=' ∉ s := fun hc ↦ by
  cases of_mem_isIdentifier h hc

namespace Frame

variable {f g : Option Frame} {p q : String × Value} {name : String}

theorem toList_entryWord (p : String × Value) :
    (entryWord p).toList = p.1.toList ++ '=' :: p.2.describe.toList := by
  simp [entryWord]

/-- The names of a frame's variables are identifiers. -/
def Named (f : Frame) : Prop := ∀ name ∈ f.names, isIdentifier name.toList = true

theorem entryWord_inj (hp : isIdentifier p.1.toList = true) (hq : isIdentifier q.1.toList = true)
    (h : entryWord p = entryWord q) : (p.1, p.2.canonical) = (q.1, q.2.canonical) := by
  have hc := congrArg (cut? '=' ·.toList) h
  simp only [toList_entryWord, cut?_append (equals_not_mem hp), cut?_append (equals_not_mem hq),
    Option.some_inj, Prod.mk.injEq] at hc
  rw [String.toList_injective hc.1, Value.describe_eq_iff.1 (String.toList_injective hc.2)]

theorem entryWords_inj {l l' : List (String × Value)}
    (hl : ∀ p ∈ l, isIdentifier p.1.toList = true) (hl' : ∀ p ∈ l', isIdentifier p.1.toList = true)
    (h : l.map entryWord = l'.map entryWord) :
    l.map (fun p ↦ (p.1, p.2.canonical)) = l'.map fun p ↦ (p.1, p.2.canonical) := by
  induction l generalizing l' with
  | nil =>
    rw [List.map_nil, eq_comm, List.map_eq_nil_iff] at h
    rw [h]
  | cons p l ih =>
    cases l' with
    | nil => cases h
    | cons q l' =>
      rw [List.map_cons, List.map_cons, List.cons.injEq] at h
      rw [List.map_cons, List.map_cons, ih (fun r hr ↦ hl r (List.mem_cons_of_mem p hr))
        (fun r hr ↦ hl' r (List.mem_cons_of_mem q hr)) h.2]
      rw [entryWord_inj (hl p List.mem_cons_self) (hl' q List.mem_cons_self) h.1]

/-- The words about a frame are those about its canonical form. -/
theorem words_canonical (name : String) (f : Option Frame) :
    words name (f.map canonical) = words name f := by
  cases f with
  | none => rfl
  | some f =>
    have he : f.canonical.entries.map entryWord = f.entries.map entryWord := by
      rw [canonical, List.map_map]
      exact List.map_congr_left fun p _ ↦ congrArg (p.1 ++ "=" ++ ·) p.2.describe_canonical
    have hn : f.canonical.entries.isEmpty = f.entries.isEmpty := by simp [canonical]
    rw [Option.map_some, words, words, he, hn]

theorem words_of_nil {f : Frame} (h : f.entries = []) :
    words name (some f) = [name ++ ":", "<empty>"] := by
  rw [words, h, List.isEmpty_nil, if_pos rfl]

theorem words_of_ne_nil {f : Frame} (h : f.entries ≠ []) :
    words name (some f) = (name ++ ":") :: f.entries.map entryWord := by
  rw [words, if_neg (mt List.isEmpty_iff.1 h)]

/-- No word about a variable stands where a frame is said to be missing or empty. -/
theorem map_entryWord_ne {w : String} (h : '=' ∉ w.toList) (l : List (String × Value))
    (ws : List String) : l.map entryWord ≠ w :: ws := by
  intro he
  cases l with
  | nil => cases he
  | cons p l =>
    rw [List.map_cons, List.cons.injEq] at he
    rw [← he.1, toList_entryWord] at h
    exact h (List.mem_append_right _ List.mem_cons_self)

theorem words_some_ne_none (f : Frame) : words name (some f) ≠ words name none := by
  intro h
  by_cases hf : f.entries = []
  · rw [words_of_nil hf, words, List.cons.injEq, List.cons.injEq] at h
    cases h.2.2
  · rw [words_of_ne_nil hf, words, List.cons.injEq] at h
    exact map_entryWord_ne (by decide) _ _ h.2

theorem canonical_eq_of_words {f g : Frame} (hf : f.Named) (hg : g.Named)
    (h : words name (some f) = words name (some g)) : f.canonical = g.canonical := by
  by_cases hfe : f.entries = [] <;> by_cases hge : g.entries = []
  · rw [canonical, canonical, hfe, hge]
  · rw [words_of_nil hfe, words_of_ne_nil hge, List.cons.injEq] at h
    exact absurd h.2.symm (map_entryWord_ne (by decide) _ _)
  · rw [words_of_ne_nil hfe, words_of_nil hge, List.cons.injEq] at h
    exact absurd h.2 (map_entryWord_ne (by decide) _ _)
  · rw [words_of_ne_nil hfe, words_of_ne_nil hge, List.cons.injEq] at h
    have hm {k : Frame} (hk : k.Named) : ∀ p ∈ k.entries, isIdentifier p.1.toList = true :=
      fun p hp ↦ hk p.1 (List.mem_map_of_mem hp)
    rw [canonical, canonical, entryWords_inj (hm hf) (hm hg) h.2]

theorem words_eq_iff (hf : ∀ k, f = some k → k.Named) (hg : ∀ k, g = some k → k.Named) :
    words name f = words name g ↔ f.map canonical = g.map canonical := by
  constructor
  · intro h
    cases f with
    | none =>
      cases g with
      | none => rfl
      | some g => exact absurd h.symm (words_some_ne_none g)
    | some f =>
      cases g with
      | none => exact absurd h (words_some_ne_none f)
      | some g =>
        rw [Option.map_some, Option.map_some, canonical_eq_of_words (hf f rfl) (hg g rfl) h]
  · intro h
    rw [← words_canonical name f, ← words_canonical name g, h]

theorem unbroken_words (hn : Unbroken name.toList) (hf : ∀ k, f = some k → k.Named) :
    ∀ w ∈ words name f, Unbroken w.toList := by
  have hc : Unbroken (name ++ ":").toList := by
    rw [String.toList_append]
    exact hn.append (by decide)
  cases f with
  | none => exact List.forall_mem_cons.2 ⟨hc, by decide⟩
  | some f =>
    refine List.forall_mem_cons.2 ⟨hc, ?_⟩
    split
    · decide
    · intro w hw
      obtain ⟨p, hp, rfl⟩ := List.mem_map.1 hw
      rw [toList_entryWord, List.append_cons]
      have hi := hf f rfl p.1 (List.mem_map_of_mem hp)
      exact ((unbroken_of_isIdentifier hi).append (by decide)).append p.2.unbroken_describe

theorem named_change {f : Frame} {c : Change} (hf : f.Named)
    (hc : ∀ name, c = .define name → isIdentifier name.toList = true) : (f.change c).Named := by
  cases c with
  | define name =>
    rw [change, Named, names_define]
    intro key hk
    rcases List.mem_append.1 hk with hk | hk
    · exact hf key hk
    · rw [List.mem_singleton.1 hk]
      exact hc name rfl
  | assign name x =>
    rw [change, Named, names_set]
    exact hf

end Frame

theorem Argument.decode_var {text : String} {declared : ArgumentType} {v : VarRef}
    (h : decode text declared = .ok (.var v)) : VarRef.ofText text = .ok v := by
  cases declared with
  | var =>
    obtain ⟨w, hw, he⟩ := Except.map_eq_ok.1 h
    cases he
    exact hw
  | label | type =>
    simp only [decode] at h
    split at h <;> cases h
  | string | int | bool | float | nil =>
    simp only [decode, literalOr] at h
    split at h <;> cases h

namespace Instruction

variable {i : Instruction} {fs fs' : Frames}

theorem WellFormed.written?_identifier (hi : i.WellFormed) {v : VarRef} (h : i.written? = some v) :
    isIdentifier v.name.toList = true := by
  obtain ⟨text, declared, hd⟩ := hi.decoded _ (List.mem_of_getElem? (written?_eq_some h).2)
  exact VarRef.isIdentifier_of_ofText (Argument.decode_var hd)

theorem Alters.named (hi : i.WellFormed) (h : i.Alters fs fs') (hfs : ∀ f ∈ fs.all, f.Named) :
    ∀ f ∈ fs'.all, f.Named := by
  intro g hg
  cases h with
  | arranged _ ha =>
    rw [ha] at hg
    rcases Frames.of_mem_all_arrange hg with rfl | hg
    · exact fun name hn ↦ absurd hn List.not_mem_nil
    · exact hfs g hg
  | changed hc hf he =>
    rw [he] at hg
    rcases Frames.of_mem_all_replace hg with rfl | hg
    -- A new name is that of a variable of the program.
    · refine Frame.named_change (hfs _ (Frames.mem_all_of_frame? hf)) fun name hn ↦ ?_
      obtain ⟨v, hv, hc⟩ := Option.bind_eq_some_iff.1 hc
      split at hc
      · cases hc
        cases hn
        exact hi.written?_identifier hv
      · obtain ⟨x, -, hx⟩ := Option.map_eq_some_iff.1 hc
        cases hx
        cases hn
    · exact hfs g hg

end Instruction

namespace Machine

variable {text : String} {p : Program} {m₀ m m' : Machine} {phase : Phase}

/-- The variables that a loaded program defines are named by identifiers. -/
theorem Session.named (hp : Program.load text = .ok m₀.program)
    (h₀ : ∀ f ∈ m₀.frames.all, f.Named) (h : Session m₀ phase m) : ∀ f ∈ m.frames.all, f.Named := by
  induction h with
  | fresh => exact h₀
  | start _ hs ih =>
    rw [(start_kept hs).1]
    exact ih
  | next hm ha ih =>
    obtain ⟨i, flow, m₁, hi, -⟩ := advance_next ha
    exact (advance_alters hi ha).named (hm.instruction_ready hp hi).1 ih
  | stop _ ha ih =>
    rw [(stop_kept ha).1]
    exact ih

theorem reportWords_unbroken (hm : ∀ f ∈ m.frames.all, f.Named) :
    ∀ ws ∈ m.reportWords, ∀ w ∈ ws, Unbroken w.toList := by
  have hf (kind : FrameKind) (k : Frame) (hk : m.frames.frame? kind = some k) : k.Named :=
    hm k (Frames.mem_all_of_frame? hk)
  have ho (n : Nat) : Unbroken (toString n ++ ")").toList := by
    rw [String.toList_append]
    exact (unbroken_toString n).append (by decide)
  have hs (n : Nat) : Unbroken s!"({n}):".toList := by
    have h : s!"({n}):".toList = ['('] ++ (toString n).toList ++ [')', ':'] := by
      simp [toString_string]
    rw [h]
    exact (Unbroken.append (by decide) (unbroken_toString n)).append (by decide)
  have hv : ∀ w ∈ m.operands.reverse.map Value.describe, Unbroken w.toList := by
    intro w hw
    obtain ⟨x, -, rfl⟩ := List.mem_map.1 hw
    exact x.unbroken_describe
  simp only [reportWords, List.forall_mem_cons, List.forall_mem_append, unbroken_toString, ho, hs,
    true_and, and_true, List.not_mem_nil, false_imp_iff, implies_true]
  exact ⟨by decide, by decide, by decide, Frame.unbroken_words (by decide) (hf .gf),
    Frame.unbroken_words (by decide) (hf .lf), Frame.unbroken_words (by decide) (hf .tf),
    by decide, ⟨by decide, hv⟩, by decide, by decide⟩

/-- The machines cannot be told apart by what a report tells of them. All floats that are no numbers
are reported alike. -/
structure Alike (m m' : Machine) : Prop where
  pc : m.pc = m'.pc
  order : m.instruction?.map Instruction.order = m'.instruction?.map Instruction.order
  executed : m.executed = m'.executed
  frames (kind : FrameKind) :
    (m.frames.frame? kind).map Frame.canonical = (m'.frames.frame? kind).map Frame.canonical
  depth : m.frames.depth = m'.frames.depth
  operands : m.operands.map Value.canonical = m'.operands.map Value.canonical
  calls : m.calls.length = m'.calls.length

theorem map_describe_inj {l l' : List Value} :
    l.map Value.describe = l'.map Value.describe ↔
      l.map Value.canonical = l'.map Value.canonical := by
  induction l generalizing l' with
  | nil => simp
  | cons x l ih =>
    cases l' with
    | nil => simp
    | cons y l' => simp [ih, Value.describe_eq_iff]

/-- Instructions are numbered from one on, so that zero stands for none. -/
theorem order_inj (hm : ∀ i, m.instruction? = some i → 0 < i.order)
    (hm' : ∀ i, m'.instruction? = some i → 0 < i.order) :
    (m.instruction?.map Instruction.order).getD 0 = (m'.instruction?.map Instruction.order).getD 0 ↔
      m.instruction?.map Instruction.order = m'.instruction?.map Instruction.order := by
  refine ⟨fun h ↦ ?_, congrArg (Option.getD · 0)⟩
  cases hi : m.instruction? <;> cases hi' : m'.instruction? <;> simp only [hi, hi', Option.map_some,
    Option.map_none, Option.getD_some, Option.getD_none] at h ⊢
  · exact absurd h (Nat.ne_of_lt (hm' _ hi'))
  · exact absurd h.symm (Nat.ne_of_lt (hm _ hi))
  · rw [h]

theorem reportWords_eq_iff (hm : ∀ f ∈ m.frames.all, f.Named) (hm' : ∀ f ∈ m'.frames.all, f.Named)
    (ho : ∀ i, m.instruction? = some i → 0 < i.order)
    (ho' : ∀ i, m'.instruction? = some i → 0 < i.order) :
    m.reportWords = m'.reportWords ↔ m.Alike m' := by
  have hf (name : String) (kind : FrameKind) :
      Frame.words name (m.frames.frame? kind) = Frame.words name (m'.frames.frame? kind) ↔
        (m.frames.frame? kind).map Frame.canonical = (m'.frames.frame? kind).map Frame.canonical :=
    Frame.words_eq_iff (fun k hk ↦ hm k (Frames.mem_all_of_frame? hk))
      fun k hk ↦ hm' k (Frames.mem_all_of_frame? hk)
  have hn (a b : Nat) : toString a = toString b ↔ a = b := Nat.repr_inj
  have hd : (toString ((m.instruction?.map Instruction.order).getD 0) ++ ")" =
      toString ((m'.instruction?.map Instruction.order).getD 0) ++ ")") ↔
        m.instruction?.map Instruction.order = m'.instruction?.map Instruction.order := by
    rw [String.append_left_inj, hn, order_inj ho ho']
  have hv : m.operands.reverse.map Value.describe = m'.operands.reverse.map Value.describe ↔
      m.operands.map Value.canonical = m'.operands.map Value.canonical := by
    rw [List.map_reverse, List.map_reverse, List.reverse_inj, map_describe_inj]
  simp only [reportWords, List.cons.injEq, hf, hd, hv, hn, true_and, and_true,
    Nat.add_right_cancel_iff, List.cons_append, List.nil_append]
  constructor
  · rintro ⟨⟨hpc, horder⟩, hexecuted, hgf, hlf, htf, hdepth, ⟨-, hoperands⟩, hcalls⟩
    refine ⟨hpc, horder, hexecuted, fun kind ↦ ?_, hdepth, hoperands, hcalls⟩
    cases kind with
    | gf => exact hgf
    | lf => exact hlf
    | tf => exact htf
  · intro h
    have hl : m.operands.length = m'.operands.length := by
      simpa only [List.length_map] using congrArg List.length h.operands
    rw [hl]
    exact ⟨⟨h.pc, h.order⟩, h.executed, h.frames .gf, h.frames .lf, h.frames .tf, h.depth,
      ⟨rfl, h.operands⟩, h.calls⟩

/-- For a machine of a session, the names and numbers in a report can be told from the rest. -/
theorem report_eq_iff (hm : ∀ f ∈ m.frames.all, f.Named) (hm' : ∀ f ∈ m'.frames.all, f.Named)
    (ho : ∀ i, m.instruction? = some i → 0 < i.order)
    (ho' : ∀ i, m'.instruction? = some i → 0 < i.order) :
    m.report = m'.report ↔ m.Alike m' := by
  rw [← reportWords_eq_iff hm hm' ho ho']
  constructor
  · intro h
    -- No word has a blank or a line feed in it, so that the text determines its words.
    have hw := congrArg (wordsByLine ·.toList) h
    simp only [wordsByLine_report (reportWords_unbroken hm),
      wordsByLine_report (reportWords_unbroken hm')] at hw
    exact List.map_injective_iff.2 (List.map_injective_iff.2 fun _ _ ↦ String.toList_injective)
      (List.append_cancel_right hw)
  · intro h
    have hl := congrArg (List.map fun ws ↦ [' '].intercalate (ws.map String.toList)) h
    rw [← reportLines_eq, ← reportLines_eq] at hl
    rw [report, report, List.map_injective_iff.2 (fun _ _ ↦ String.toList_injective) hl]

theorem Session.order_pos (hp : Program.load text = .ok m₀.program) (h : Session m₀ phase m) :
    ∀ i, m.instruction? = some i → 0 < i.order := fun i hi ↦ by
  have hm : i ∈ m.program.instructions := List.mem_of_getElem? hi
  rw [h.program_eq] at hm
  exact Program.load_order_pos hp i hm

theorem named_fresh (p : Program) (input : List UInt8) (output diagnostics : Sink) :
    ∀ f ∈ (fresh p input output diagnostics).frames.all, f.Named := by
  intro f hf
  rcases Frames.mem_all.1 hf with rfl | hf | hf
  · exact fun name hn ↦ absurd hn List.not_mem_nil
  · cases hf
  · cases hf

/-- Two machines that loaded programs come to are reported alike only if nothing that is reported of
them differs. A report has ten lines, whatever the variables and the operands hold. -/
theorem report_unambiguous {text text' : String} {p p' : Program} (hp : Program.load text = .ok p)
    (hp' : Program.load text' = .ok p') {input input' : List UInt8}
    {output output' diagnostics diagnostics' : Sink} {phase phase' : Phase} {m m' : Machine}
    (hm : Session (fresh p input output diagnostics) phase m)
    (hm' : Session (fresh p' input' output' diagnostics') phase' m') :
    (m.report = m'.report ↔ m.Alike m') ∧
      ∃ lines : List String, lines.length = 10 ∧ (∀ l ∈ lines, '\n' ∉ l.toList) ∧
        m.report.toList = lines.flatMap fun l ↦ l.toList ++ ['\n'] := by
  have hn := hm.named hp (named_fresh p input output diagnostics)
  have hn' := hm'.named hp' (named_fresh p' input' output' diagnostics')
  exact ⟨report_eq_iff hn hn' (hm.order_pos hp) (hm'.order_pos hp'), m.reportLines, rfl,
    reportLines_unbroken (reportWords_unbroken hn), toList_report m⟩

def pushingElement (s : String) : Markup.Element where
  name := "program"
  attributes := [("language", "IPPcode22")]
  children := [{
    name := "instruction"
    attributes := [("order", "1"), ("opcode", "PUSHS")]
    children := [{ name := "arg1", attributes := [("type", "string")], text := s }] }]

def pushingProgram (s : String) : Program := .ofList [⟨1, .pushs, [.literal (.string s)]⟩]

def pushed (s : String) : Machine :=
  { fresh (pushingProgram s) [] {} {} with operands := [.string s], pc := 1, executed := 1 }

theorem session_pushed (s : String) :
    Session (fresh (pushingProgram s) [] {} {}) .running (pushed s) :=
  .next (.start .fresh (by cbv)) (by cbv)

def letterText : String := .join [
  "<program language=\"IPPcode22\">", "<instruction order=\"1\" opcode=\"PUSHS\">",
  "<arg1 type=\"string\">a</arg1></instruction></program>"]

def breakText : String := .join [
  "<program language=\"IPPcode22\">", "<instruction order=\"1\" opcode=\"PUSHS\">",
  "<arg1 type=\"string\">\\010</arg1></instruction></program>"]

theorem load_letter : Program.load letterText = .ok (pushingProgram "a") := by
  have hr : Markup.Element.read letterText = .ok (pushingElement "a") := by
    refine (Markup.Element.read_join _).trans ?_
    cbv
  rw [Program.load_of_read hr]
  exact Markup.Element.toProgram_of_instructions (l := [⟨1, .pushs, [.literal (.string "a")]⟩])
    rfl (by cbv) (by cbv)

theorem load_break : Program.load breakText = .ok (pushingProgram "\n") := by
  have hr : Markup.Element.read breakText = .ok (pushingElement "\\010") := by
    refine (Markup.Element.read_join _).trans ?_
    cbv
  rw [Program.load_of_read hr]
  exact Markup.Element.toProgram_of_instructions (l := [⟨1, .pushs, [.literal (.string "\n")]⟩])
    rfl (by cbv) (by cbv)

/-- A line break in an operand does not break the line that it is reported in. -/
theorem report_unambiguous_break :
    Program.load letterText = .ok (pushingProgram "a") ∧
      Program.load breakText = .ok (pushingProgram "\n") ∧
      Session (fresh (pushingProgram "a") [] {} {}) .running (pushed "a") ∧
      Session (fresh (pushingProgram "\n") [] {} {}) .running (pushed "\n") ∧
      (pushed "\n").report ≠ (pushed "a").report ∧
      ∃ lines : List String, lines.length = 10 ∧ (∀ l ∈ lines, '\n' ∉ l.toList) ∧
        (pushed "\n").report.toList = lines.flatMap fun l ↦ l.toList ++ ['\n'] := by
  obtain ⟨h, hl⟩ :=
    report_unambiguous load_break load_letter (session_pushed "\n") (session_pushed "a")
  refine ⟨load_letter, load_break, session_pushed "a", session_pushed "\n", fun hr ↦ ?_, hl⟩
  have ho := (h.1 hr).operands
  revert ho
  decide

end Machine

end ThreeAddress

