import ThreeAddress.Proofs.Text.Lines

namespace ThreeAddress.Text

/-- How a sequence falls into segments that each end with `e`; the last one may lack it. -/
inductive Cut {α : Type} (e : α) : List α → List (List α) → Prop
  | nil : Cut e [] []
  | last {s : List α} : s ≠ [] → e ∉ s → Cut e s [s]
  | cons {s r : List α} {l : List (List α)} : e ∉ s → Cut e r l →
      Cut e (s ++ e :: r) ((s ++ [e]) :: l)

namespace Cut

variable {α : Type} {e : α} {s r : List α} {l l' : List (List α)}

theorem exists_cut (e : α) (s : List α) : ∃ l, Cut e s l := by
  classical
  induction s with
  | nil => exact ⟨[], .nil⟩
  | cons a s ih =>
    obtain ⟨l, h⟩ := ih
    by_cases ha : e = a
    · subst ha
      exact ⟨[e] :: l, .cons (s := []) List.not_mem_nil h⟩
    · cases h with
      | nil => exact ⟨[[a]], .last (List.cons_ne_nil a []) (by simp [ha])⟩
      | last hne hs => exact ⟨[a :: s], .last (List.cons_ne_nil a s) (by simp [ha, hs])⟩
      | @cons s r l hs h => exact ⟨_, .cons (s := a :: s) (by simp [ha, hs]) h⟩

theorem append_cons_inj {s' r' : List α} (hs : e ∉ s) (hs' : e ∉ s')
    (h : s ++ e :: r = s' ++ e :: r') : s = s' ∧ r = r' := by
  induction s generalizing s' with
  | nil =>
    cases s' with
    | nil => exact ⟨rfl, (List.cons.inj h).2⟩
    | cons a s' =>
      obtain ⟨rfl, -⟩ := List.cons.inj h
      exact absurd List.mem_cons_self hs'
  | cons a s ih =>
    cases s' with
    | nil =>
      obtain ⟨rfl, -⟩ := List.cons.inj h
      exact absurd List.mem_cons_self hs
    | cons a' s' =>
      obtain ⟨rfl, ht⟩ := List.cons.inj h
      obtain ⟨rfl, rfl⟩ := ih (fun hm ↦ hs (.tail _ hm)) (fun hm ↦ hs' (.tail _ hm)) ht
      exact ⟨rfl, rfl⟩

theorem unique (h : Cut e s l) (h' : Cut e s l') : l = l' := by
  induction h generalizing l' with
  | nil =>
    generalize hs : ([] : List α) = s at h'
    cases h' with
    | nil => rfl
    | last hne => exact absurd hs.symm hne
    | cons => simp at hs
  | @last s hne hs =>
    cases h' with
    | nil => exact absurd rfl hne
    | last => rfl
    | cons => simp at hs
  | @cons s r l hs _ ih =>
    generalize ht : s ++ e :: r = t at h'
    cases h' with
    | nil => simp at ht
    | last _ ht' =>
      subst ht
      simp at ht'
    | cons hs' h' =>
      obtain ⟨rfl, rfl⟩ := append_cons_inj hs hs' ht
      rw [ih h']

theorem flatten_eq (h : Cut e s l) : l.flatten = s := by
  induction h with
  | nil => rfl
  | last => exact List.flatten_singleton
  | cons _ _ ih => rw [List.flatten_cons, ih, List.append_assoc, List.singleton_append]

end Cut

variable {s : String} {c : Char} {b : UInt8} {bytes line rest : List UInt8}
  {segments : List (List UInt8)}

/-- A text without the line feed at its end, and then without one carriage return before that. -/
def unended (s : List Char) : List Char :=
  if s.getLast? = some '\n' then
    if s.dropLast.getLast? = some '\r' then s.dropLast.dropLast else s.dropLast
  else s

/-- The line that a segment of the input holds, if it is a text. -/
def contents (segment : List UInt8) : Option String :=
  (ofUTF8? segment).map fun s ↦ String.ofList (unended s.toList)

theorem unended_concat (s : List Char) :
    unended (s ++ ['\n']) = if s.getLast? = some '\r' then s.dropLast else s := by
  rw [unended, if_pos List.getLast?_concat, List.dropLast_concat]

theorem contents_last (h : lineFeed ∉ line) : contents line = ofUTF8? line := by
  cases hs : ofUTF8? line with
  | none => rw [contents, hs, Option.map_none]
  | some s =>
    have hn : s.toList.getLast? ≠ some '\n' := by
      intro hl
      obtain ⟨t, rfl⟩ := exists_push_of_getLast? hl
      rw [← ofUTF8?_eq_some.1 hs, utf8_push t (by decide)] at h
      exact h List.mem_concat_self
    rw [contents, hs, Option.map_some, unended, if_neg hn, String.ofList_toList]

theorem contents_cons (line : List UInt8) :
    contents (line ++ [lineFeed]) = ofUTF8? (withoutReturn line) := by
  have hn : ofUTF8? (line ++ [lineFeed]) = (ofUTF8? line).map (·.push '\n') :=
    ofUTF8?_concat (c := '\n') line (by decide)
  rw [contents, hn, Option.map_map, withoutReturn]
  split
  · next hl =>
    obtain ⟨l, rfl⟩ := List.getLast?_eq_some_iff.1 hl
    have hr : ofUTF8? (l ++ [carriageReturn]) = (ofUTF8? l).map (·.push '\r') :=
      ofUTF8?_concat (c := '\r') l (by decide)
    rw [hr, Option.map_map, List.dropLast_concat]
    cases ofUTF8? l with
    | none => rfl
    | some s =>
      simp only [Option.map_some, Function.comp_apply, String.toList_push, unended_concat,
        List.getLast?_concat, ↓reduceIte, List.dropLast_concat, String.ofList_toList]
  · next hl =>
    cases hs : ofUTF8? line with
    | none => rfl
    | some s =>
      have hr : s.toList.getLast? ≠ some '\r' := by
        intro hc
        obtain ⟨t, rfl⟩ := exists_push_of_getLast? hc
        rw [← ofUTF8?_eq_some.1 hs, utf8_push t (by decide)] at hl
        exact hl List.getLast?_concat
      simp only [Option.map_some, Function.comp_apply, String.toList_push, unended_concat, if_neg hr,
        String.ofList_toList]

/-- Each call takes off a segment, and gives its line. -/
theorem Cut.lines (h : Cut lineFeed bytes segments) (k : Nat) :
    lineAt k bytes = segments[k]?.bind contents ∧
      dropLines k bytes = (segments.drop k).flatten := by
  induction k generalizing bytes segments with
  | zero =>
    refine ⟨?_, h.flatten_eq.symm⟩
    rw [lineAt, dropLines]
    cases h with
    | nil => rfl
    | last hne hs =>
      rw [takeLine_last hne hs]
      exact (contents_last hs).symm
    | cons hs h =>
      rw [takeLine_cons hs]
      exact (contents_cons _).symm
  | succ k ih =>
    rw [lineAt, dropLines, ← lineAt]
    cases h with
    | nil => simpa [takeLine_nil] using ih .nil
    | last hne hs =>
      rw [takeLine_last hne hs]
      simpa using ih .nil
    | cons hs h =>
      rw [takeLine_cons hs]
      exact ih h

theorem utf8_ofList (s : List Char) : utf8 (String.ofList s) = s.flatMap String.utf8EncodeChar := by
  rw [utf8_eq, String.toList_ofList]

variable {t : List Char} {l : List (List Char)}

/-- The bytes of a text are cut where the text is. -/
theorem Cut.utf8 (h : Cut '\n' t l) :
    Cut lineFeed (utf8 (String.ofList t)) (l.map fun s ↦ Text.utf8 (String.ofList s)) := by
  induction h with
  | nil => exact .nil
  | last hne hs =>
    exact .last (utf8_ne_nil (by rwa [String.toList_ofList]))
      (lineFeed_not_mem (by rwa [String.toList_ofList]))
  | @cons s r l hs _ ih =>
    have he : Text.utf8 (String.ofList (s ++ '\n' :: r)) =
        Text.utf8 (String.ofList s) ++ lineFeed :: Text.utf8 (String.ofList r) := by
      simp only [utf8_ofList, List.flatMap_append, List.flatMap_cons]
      rfl
    have he' : Text.utf8 (String.ofList (s ++ ['\n'])) =
        Text.utf8 (String.ofList s) ++ [lineFeed] := by
      simp only [utf8_ofList, List.flatMap_append, List.flatMap_singleton]
      rfl
    rw [List.map_cons, he, he']
    exact .cons (lineFeed_not_mem (by rwa [String.toList_ofList])) ih

theorem contents_utf8 (s : String) : contents (utf8 s) = some (String.ofList (unended s.toList)) := by
  rw [contents, ofUTF8?_utf8, Option.map_some]

theorem lineAt_utf8 (h : Cut '\n' s.toList l) (k : Nat) :
    lineAt k (utf8 s) = (l.map fun t ↦ String.ofList (unended t))[k]? := by
  have hc := h.utf8
  rw [String.ofList_toList] at hc
  rw [(hc.lines k).1, List.getElem?_map, List.getElem?_map]
  cases l[k]? with
  | none => rfl
  | some t =>
    rw [Option.map_some, Option.bind_some, contents_utf8, String.toList_ofList, Option.map_some]

/-- The lines of a text put together again are the text, but for a line feed at its end. -/
theorem Cut.joined (h : Cut '\n' t l) (hr : ¬ ['\r', '\n'] <:+: t) :
    t = ['\n'].intercalate (l.map unended) ∨ t = ['\n'].intercalate (l.map unended) ++ ['\n'] := by
  induction h with
  | nil => exact .inl rfl
  | @last s hne hs =>
    have hu : unended s = s := if_neg fun hl ↦ hs (List.mem_of_getLast? hl)
    rw [List.map_singleton, List.intercalate_singleton, hu]
    exact .inl rfl
  | @cons s r l hs h ih =>
    have hu : unended (s ++ ['\n']) = s := by
      rw [unended_concat, if_neg]
      intro hl
      obtain ⟨a, rfl⟩ := List.getLast?_eq_some_iff.1 hl
      exact hr ⟨a, r, by simp⟩
    have ih := ih fun hi ↦ hr (hi.trans ⟨s ++ ['\n'], [], by simp⟩)
    rw [List.map_cons, hu]
    cases h with
    | nil => exact .inr (by rw [List.map_nil, List.intercalate_singleton])
    | last | cons =>
      rw [List.intercalate_cons_of_ne_nil (by simp), List.append_assoc, List.singleton_append]
      refine ih.imp ?_ ?_
      · intro hj
        rw [← hj]
      · intro hj
        rw [List.append_assoc, List.cons_append, ← hj]

/-- The lines of an input are those of its segments, one for each call and none after the last. A
segment that is no text has none, and only that one is lost. -/
theorem input_lines (bytes : List UInt8) :
    ∃ segments, (∀ l, Cut lineFeed bytes l ↔ l = segments) ∧
      (∀ k, lineAt k bytes = segments[k]?.bind contents ∧
        dropLines k bytes = (segments.drop k).flatten) ∧
      (∀ k, segments[k]? = some [lineFeed] → lineAt k bytes = some "") ∧
      ∀ s : String, utf8 s = bytes → ¬ ['\r', '\n'] <:+: s.toList →
        ∃ lines, (∀ k, lineAt k bytes = lines[k]?) ∧
          (s = "\n".intercalate lines ∨ s = "\n".intercalate lines ++ "\n") := by
  obtain ⟨segments, h⟩ := Cut.exists_cut lineFeed bytes
  refine ⟨segments, fun l ↦ ⟨fun hl ↦ hl.unique h, fun hl ↦ hl ▸ h⟩, h.lines, ?_, ?_⟩
  · intro k hk
    rw [(h.lines k).1, hk, Option.bind_some]
    exact contents_cons []
  · rintro s rfl hr
    obtain ⟨l, hl⟩ := Cut.exists_cut '\n' s.toList
    refine ⟨l.map fun t ↦ String.ofList (unended t), lineAt_utf8 hl, ?_⟩
    have hj := hl.joined hr
    simp only [← String.toList_inj, String.toList_append, String.toList_intercalate, List.map_map,
      Function.comp_def, String.toList_ofList]
    exact hj

/-- One carriage return of two is taken away, and a line that is no text hides none after it. -/
example : (List.range 5).map (lineAt · [97, 13, 13, 10, 255, 10, 10, 98]) =
    [some "a\r", none, some "", some "b", none] := by decide +kernel

end ThreeAddress.Text
