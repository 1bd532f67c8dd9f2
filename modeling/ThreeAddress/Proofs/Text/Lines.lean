import Mathlib.Data.List.TakeDrop
import Mathlib.Data.List.TakeWhile
import ThreeAddress.Text.Lines

namespace ThreeAddress.Text

def utf8 (s : String) : List UInt8 := s.toUTF8.data.toList

/-- What is left of an input when lines have been taken off it. -/
def dropLines : Nat → List UInt8 → List UInt8
  | 0, bytes => bytes
  | k + 1, bytes => dropLines k (takeLine bytes).2

/-- The line that is taken off an input after so many others. -/
def lineAt (k : Nat) (bytes : List UInt8) : Option String := (takeLine (dropLines k bytes)).1

variable {s : String} {c : Char} {b : UInt8} {bytes line : List UInt8}

theorem utf8_eq (s : String) : utf8 s = s.toList.flatMap String.utf8EncodeChar := by
  rw [utf8, String.toUTF8_eq_toByteArray, ← String.utf8Encode_toList, List.utf8Encode,
    List.toList_data_toByteArray]

theorem ofUTF8?_utf8 (s : String) : ofUTF8? (utf8 s) = some s :=
  dif_pos s.isValidUTF8

theorem ofUTF8?_eq_some : ofUTF8? bytes = some s ↔ utf8 s = bytes := by
  constructor
  · intro h
    rw [ofUTF8?, String.fromUTF8?] at h
    split at h
    · cases h
      rfl
    · cases h
  · rintro rfl
    exact ofUTF8?_utf8 s

/-- The bytes below 128 stand for themselves, so that no other character has one of them. -/
theorem eq_of_mem_utf8EncodeChar (h : b ∈ String.utf8EncodeChar c) (hb : b.toNat < 128) :
    c.toNat = b.toNat := by
  have hv : c.val.toNat = c.toNat := rfl
  rw [String.utf8EncodeChar] at h
  simp only [hv] at h
  split at h
  · rw [List.mem_singleton.1 h, UInt8.toNat_ofNat']
    omega
  split at h
  · simp only [List.mem_cons, List.not_mem_nil, or_false] at h
    rcases h with rfl | rfl <;> rw [UInt8.toNat_ofNat'] at hb <;> omega
  split at h
  · simp only [List.mem_cons, List.not_mem_nil, or_false] at h
    rcases h with rfl | rfl | rfl <;> rw [UInt8.toNat_ofNat'] at hb <;> omega
  · simp only [List.mem_cons, List.not_mem_nil, or_false] at h
    rcases h with rfl | rfl | rfl | rfl <;> rw [UInt8.toNat_ofNat'] at hb <;> omega

theorem char_eq_of_mem (h : b ∈ String.utf8EncodeChar c) (hb : b.toNat < 128) :
    c = Char.ofNat b.toNat := by
  rw [← eq_of_mem_utf8EncodeChar h hb, Char.ofNat_toNat]

theorem lineFeed_not_mem (h : '\n' ∉ s.toList) : lineFeed ∉ utf8 s := by
  intro hb
  rw [utf8_eq, List.mem_flatMap] at hb
  obtain ⟨c, hc, hb⟩ := hb
  exact h (char_eq_of_mem hb (by decide) ▸ hc)

theorem utf8_push (s : String) (hc : c.toNat < 128) :
    utf8 (s.push c) = utf8 s ++ [UInt8.ofNat c.toNat] := by
  have he : String.utf8EncodeChar c = [UInt8.ofNat c.toNat] := if_pos (Nat.le_of_lt_succ hc)
  rw [utf8_eq, utf8_eq, String.toList_push, List.flatMap_append, List.flatMap_singleton, he]

theorem exists_push_of_getLast? (h : s.toList.getLast? = some c) : ∃ t : String, s = t.push c := by
  obtain ⟨l, hl⟩ := List.getLast?_eq_some_iff.1 h
  refine ⟨String.ofList l, ?_⟩
  rw [← String.toList_inj, String.toList_push, String.toList_ofList, hl]

theorem exists_push (h : (utf8 s).getLast? = some b) (hb : b.toNat < 128) :
    ∃ t : String, s = t.push (Char.ofNat b.toNat) := by
  rw [utf8_eq] at h
  rcases List.eq_nil_or_concat s.toList with hs | ⟨l, c, hs⟩
  · rw [hs] at h
    cases h
  · rw [List.concat_eq_append] at hs
    obtain ⟨d, hl⟩ := Option.ne_none_iff_exists'.1
      (mt List.getLast?_eq_none_iff.1 (String.utf8EncodeChar_ne_nil (c := c)))
    rw [hs, List.flatMap_append, List.flatMap_singleton, List.getLast?_append, hl,
      Option.some_or, Option.some_inj] at h
    subst h
    rw [← char_eq_of_mem (List.mem_of_getLast? hl) hb]
    exact exists_push_of_getLast? (by rw [hs, List.getLast?_concat])

theorem getLast?_ne (h : s.toList.getLast? ≠ some '\r') :
    (utf8 s).getLast? ≠ some carriageReturn := by
  intro hb
  obtain ⟨t, rfl⟩ := exists_push hb (by decide)
  rw [String.toList_push, List.getLast?_concat] at h
  exact h rfl

/-- A byte below 128 at the end of a text is a character of its own. -/
theorem ofUTF8?_concat (bytes : List UInt8) (hc : c.toNat < 128) :
    ofUTF8? (bytes ++ [UInt8.ofNat c.toNat]) = (ofUTF8? bytes).map (·.push c) := by
  cases hs : ofUTF8? bytes with
  | some s =>
    rw [← ofUTF8?_eq_some.1 hs, ← utf8_push s hc, ofUTF8?_utf8, Option.map_some]
  | none =>
    rw [Option.map_none, Option.eq_none_iff_forall_not_mem]
    intro t ht
    have ht := ofUTF8?_eq_some.1 ht
    have hn : (UInt8.ofNat c.toNat).toNat = c.toNat := UInt8.toNat_ofNat_of_lt (hc.trans (by decide))
    obtain ⟨u, rfl⟩ := exists_push (b := UInt8.ofNat c.toNat) (by rw [ht, List.getLast?_concat])
      (by omega)
    rw [hn, Char.ofNat_toNat, utf8_push u hc] at ht
    rw [← List.append_cancel_right ht, ofUTF8?_utf8] at hs
    cases hs

theorem utf8_ne_nil (h : s.toList ≠ []) : utf8 s ≠ [] := by
  obtain ⟨c, l, hs⟩ := List.exists_cons_of_ne_nil h
  rw [utf8_eq, hs, List.flatMap_cons]
  exact List.append_ne_nil_of_left_ne_nil String.utf8EncodeChar_ne_nil _

theorem takeLine_suffix (bytes : List UInt8) : (takeLine bytes).2 <:+ bytes := by
  rw [takeLine, List.span_eq_takeWhile_dropWhile]
  split
  · exact List.nil_suffix
  · exact List.nil_suffix
  · next h =>
    obtain ⟨-, hr⟩ := Prod.mk.inj h
    have hs := List.dropWhile_suffix (l := bytes) (· != lineFeed)
    rw [hr] at hs
    exact (List.suffix_cons _ _).trans hs

theorem takeLine_nil : takeLine [] = (none, []) := rfl

theorem span_line (h : lineFeed ∉ line) (rest : List UInt8) :
    (line ++ rest).span (· != lineFeed) =
      (line ++ rest.takeWhile (· != lineFeed), rest.dropWhile (· != lineFeed)) := by
  have hp : ∀ b ∈ line, (b != lineFeed) = true := fun b hb ↦
    bne_iff_ne.2 fun he ↦ h (he ▸ hb)
  rw [List.span_eq_takeWhile_dropWhile, List.takeWhile_append_of_pos hp,
    List.dropWhile_append_of_pos hp]

theorem takeLine_last (hne : line ≠ []) (h : lineFeed ∉ line) :
    takeLine line = (ofUTF8? line, []) := by
  have hs := span_line h []
  rw [List.append_nil, List.takeWhile_nil, List.dropWhile_nil, List.append_nil] at hs
  rw [takeLine, hs]
  split
  · next he => exact absurd (congrArg Prod.fst he) hne
  · next he =>
    cases he
    rfl
  · next he => cases congrArg Prod.snd he

/-- A line without the carriage return before its line feed. -/
def withoutReturn (line : List UInt8) : List UInt8 :=
  if line.getLast? = some carriageReturn then line.dropLast else line

theorem takeLine_cons (h : lineFeed ∉ line) (rest : List UInt8) :
    takeLine (line ++ lineFeed :: rest) = (ofUTF8? (withoutReturn line), rest) := by
  have hs := span_line h (lineFeed :: rest)
  simp only [List.takeWhile_cons, List.dropWhile_cons, bne_self_eq_false, Bool.false_eq_true,
    ↓reduceIte, List.append_nil] at hs
  simp only [takeLine, hs, withoutReturn]

/-- A text without line feeds is taken back from its bytes as a line. -/
theorem takeLine_utf8 (hn : '\n' ∉ s.toList) (hr : s.toList.getLast? ≠ some '\r')
    (rest : List UInt8) : takeLine (utf8 s ++ lineFeed :: rest) = (some s, rest) := by
  rw [takeLine_cons (lineFeed_not_mem hn), withoutReturn, if_neg (getLast?_ne hr), ofUTF8?_utf8]

theorem takeLine_utf8_end (hn : '\n' ∉ s.toList) (hs : s.toList ≠ []) :
    takeLine (utf8 s) = (some s, []) := by
  rw [takeLine_last (utf8_ne_nil hs) (lineFeed_not_mem hn), ofUTF8?_utf8]

end ThreeAddress.Text
