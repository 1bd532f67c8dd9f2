import ThreeAddress.Sink

namespace ThreeAddress.Sink

variable {s s' t d d' : Sink} {text : String} {limit : Nat}

/-- A stream that takes in nothing more. -/
def Full (s : Sink) : Prop := ∃ limit, s.limit = some limit ∧ limit ≤ s.accepted.size

theorem room_of_full (h : s.Full) (n : Nat) : s.room n = 0 := by
  obtain ⟨limit, hl, hf⟩ := h
  simp only [room, hl]
  omega

theorem room_of_limit_none (h : s.limit = none) (n : Nat) : s.room n = n := by
  simp only [room, h]

theorem write_of_full (h : s.Full) : s.write text = (s, text.toUTF8.size == 0) := by
  simp only [write, room_of_full h, ByteArray.extract_same, ByteArray.append_empty, Prod.mk.injEq,
    true_and]
  exact Bool.beq_comm

theorem write_of_limit_none (h : s.limit = none) :
    s.write text = ({ s with accepted := s.accepted ++ text.toUTF8 }, true) := by
  simp only [write, room_of_limit_none h, ByteArray.extract_zero_size, BEq.rfl]

/-- A stream that refuses a part of a text has taken in all that it can. -/
theorem full_of_refused (h : (s.write text).2 = false) : (s.write text).1.Full := by
  have hn : s.room text.toUTF8.size ≠ text.toUTF8.size := beq_eq_false_iff_ne.1 h
  cases hl : s.limit with
  | none => exact absurd (room_of_limit_none hl _) hn
  | some limit =>
    refine ⟨limit, hl, ?_⟩
    simp only [write, room, hl, ByteArray.size_append, ByteArray.size_extract] at hn ⊢
    omega

theorem room_le (s : Sink) (n : Nat) : s.room n ≤ n := by
  cases hl : s.limit with
  | none => exact Nat.le_of_eq (room_of_limit_none hl n)
  | some limit =>
    simp only [room, hl]
    exact Nat.min_le_left n _

theorem write_again (h : (s.write text).2 = false) :
    (s.write text).1.write text = ((s.write text).1, false) := by
  have hn : s.room text.toUTF8.size ≠ text.toUTF8.size := beq_eq_false_iff_ne.1 h
  have hz : text.toUTF8.size ≠ 0 := fun hz ↦ hn (by have := s.room_le text.toUTF8.size; omega)
  rw [write_of_full (full_of_refused h), beq_eq_false_iff_ne.2 hz]

/-- What a stream leaves of a text is its end, and nothing unless the stream is full. -/
theorem exists_left (s : Sink) (text : String) :
    ∃ rest, s.accepted ++ text.toUTF8 = (s.write text).1.accepted ++ rest ∧
      (rest = .empty ∨ (s.write text).1.Full) := by
  have hle := s.room_le text.toUTF8.size
  refine ⟨text.toUTF8.extract (s.room text.toUTF8.size) text.toUTF8.size, ?_, ?_⟩
  · simp only [write, ByteArray.append_assoc, ByteArray.extract_append_extract,
      Nat.zero_min, Nat.max_eq_right hle, ByteArray.extract_zero_size]
  · cases hw : (s.write text).2 with
    | true =>
      have hn : s.room text.toUTF8.size = text.toUTF8.size := beq_iff_eq.1 hw
      rw [hn, ByteArray.extract_same]
      exact .inl rfl
    | false => exact .inr (full_of_refused hw)

/-- `s'` is `s` after more has been written, or nothing. -/
def Extends (s s' : Sink) : Prop := ∃ bytes, s' = { s with accepted := s.accepted ++ bytes }

theorem Extends.refl (s : Sink) : s.Extends s := ⟨.empty, by rw [ByteArray.append_empty]⟩

theorem Extends.trans (h : s.Extends s') (h' : s'.Extends t) : s.Extends t := by
  obtain ⟨bytes, rfl⟩ := h
  obtain ⟨bytes', rfl⟩ := h'
  exact ⟨bytes ++ bytes', by rw [ByteArray.append_assoc]⟩

theorem Extends.limit_eq (h : s.Extends s') : s'.limit = s.limit := by
  obtain ⟨bytes, rfl⟩ := h
  rfl

theorem extends_write (s : Sink) (text : String) : s.Extends (s.write text).1 := ⟨_, rfl⟩

theorem Extends.size_le (h : s.Extends s') : s.accepted.size ≤ s'.accepted.size := by
  obtain ⟨bytes, rfl⟩ := h
  rw [ByteArray.size_append]
  exact Nat.le_add_right _ _

/-- What is written later does not change the first bytes. -/
theorem Extends.extract_eq (h : s.Extends s') {n : Nat} (hn : n ≤ s.accepted.size) :
    s'.accepted.extract 0 n = s.accepted.extract 0 n := by
  obtain ⟨bytes, rfl⟩ := h
  have hz : n - s.accepted.size = 0 := Nat.sub_eq_zero_of_le hn
  rw [ByteArray.extract_append, hz, Nat.zero_sub, ByteArray.extract_same, ByteArray.append_empty]

/-- The stream with a limit to what it takes in. -/
def limited (limit : Nat) (s : Sink) : Sink := { s with limit := some limit }

theorem write_limited_of_le (h : s.accepted.size + text.toUTF8.size ≤ limit) :
    (s.limited limit).write text =
      (limited limit { s with accepted := s.accepted ++ text.toUTF8 }, true) := by
  have hn : (s.limited limit).room text.toUTF8.size = text.toUTF8.size := by
    simp only [limited, room]
    omega
  simp only [write, hn, ByteArray.extract_zero_size, BEq.rfl]
  rfl

theorem write_limited_of_lt (hs : s.accepted.size ≤ limit)
    (h : limit < s.accepted.size + text.toUTF8.size) :
    (s.limited limit).write text =
      ({ accepted := (s.accepted ++ text.toUTF8).extract 0 limit, limit := some limit },
        false) := by
  have hn : (s.limited limit).room text.toUTF8.size = limit - s.accepted.size := by
    simp only [limited, room]
    omega
  have hb : (limit - s.accepted.size == text.toUTF8.size) = false := by
    rw [beq_eq_false_iff_ne]
    omega
  have ha : s.accepted.extract 0 limit = s.accepted := by
    rw [← Nat.max_eq_left hs, ByteArray.extract_zero_max_size]
  simp only [write, hn, hb, ByteArray.extract_append, ha, Nat.zero_sub]
  rfl

/-- `d` refuses nothing, and `d'` has a first part of what `d` has: all of it, unless it is full. -/
structure Behind (d d' : Sink) : Prop where
  limit : d.limit = none
  accepted : ∃ rest, d.accepted = d'.accepted ++ rest ∧ (rest = .empty ∨ d'.Full)

theorem Behind.write (h : Behind d d') (text : String) :
    Behind (d.write text).1 (d'.write text).1 := by
  refine ⟨h.limit, ?_⟩
  obtain ⟨rest, hd, hr⟩ := h.accepted
  rw [write_of_limit_none h.limit, hd]
  rcases hr with rfl | hf
  · rw [ByteArray.append_empty]
    exact d'.exists_left text
  · rw [write_of_full hf, ByteArray.append_assoc]
    exact ⟨rest ++ text.toUTF8, rfl, .inr hf⟩

end ThreeAddress.Sink
