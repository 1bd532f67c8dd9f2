import ThreeAddress.Proofs.Footprint
import ThreeAddress.Proofs.ReadBack
import ThreeAddress.Proofs.StraightLine
import ThreeAddress.Proofs.Text.Numeral

namespace ThreeAddress

open Text

namespace Value

variable {x : Value}

/-- The values that can be told from what is printed of them on a line of its own. -/
def Readable : Value → Prop
  | undefined | nil => False
  | bool _ | int _ => True
  | float x => x.isNaN = false
  | string s => '\n' ∉ s.toList ∧ s.toList.getLast? ≠ some '\r'

instance : DecidablePred Readable
  | undefined | nil => inferInstanceAs (Decidable False)
  | bool _ | int _ => inferInstanceAs (Decidable True)
  | float x => inferInstanceAs (Decidable (x.isNaN = false))
  | string s => inferInstanceAs (Decidable ('\n' ∉ s.toList ∧ s.toList.getLast? ≠ some '\r'))

/-- Values printed one to a line. -/
def printed (xs : List Value) : List UInt8 := xs.flatMap fun x ↦ utf8 x.display ++ [lineFeed]

theorem toList_display_int (n : Int64) : (int n).display.toList = Numeral.write n.toInt :=
  String.toList_ofList

theorem Readable.of_not_blank (h : ∀ c ∈ x.display.toList, isBlank c = false) :
    '\n' ∉ x.display.toList ∧ x.display.toList.getLast? ≠ some '\r' := by
  constructor
  · intro hc
    cases h _ hc
  · intro hc
    cases h _ (List.mem_of_getLast? hc)

/-- What is printed of a value is one line, and is the whole of it. -/
theorem Readable.display (h : x.Readable) :
    '\n' ∉ x.display.toList ∧ x.display.toList.getLast? ≠ some '\r' := by
  cases x with
  | undefined | nil => exact h.elim
  | bool b => cases b <;> decide
  | int n =>
    refine of_not_blank fun c hc ↦ ?_
    rw [toList_display_int] at hc
    exact Numeral.isBlank_of_mem_write hc
  | float x =>
    refine of_not_blank fun c hc ↦ ?_
    rw [Binary64.toList_display] at hc
    exact Binary64.isBlank_of_mem_write h hc
  | string s => exact h

theorem Readable.takeLine (h : x.Readable) (rest : List UInt8) :
    Text.takeLine (utf8 x.display ++ lineFeed :: rest) = (some x.display, rest) :=
  takeLine_utf8 h.display.1 h.display.2 rest

theorem ofLine_display_int (n : Int64) : ofLine "int" (some (int n).display) = .ok (int n) := by
  have hb {c : Char} (hc : c ∈ Numeral.write n.toInt) : isBlank c = false :=
    Numeral.isBlank_of_mem_write hc
  have hw := Numeral.int64?_write n
  have hne : Numeral.write n.toInt ≠ [] := fun he ↦ by
    rw [he] at hw
    cases hw
  have ht : trim ([] ++ Numeral.write n.toInt ++ []) = Numeral.write n.toInt :=
    trim_append (by simp) (by simp) (fun _ ↦ hb) hne
  rw [List.nil_append, List.append_nil] at ht
  rw [ofLine, show ReadType.ofName? "int" = some .int by decide]
  simp only [Option.bind_some, ReadType.read?, toList_display_int, ht, hw, Option.map_some,
    Option.getD_some]

theorem Readable.ofLine (h : x.Readable) : ofLine x.typeName (some x.display) = .ok x := by
  cases x with
  | undefined | nil => exact h.elim
  | bool b => cases b <;> decide
  | int n => exact ofLine_display_int n
  | float x => exact Binary64.ofLine_display h
  | string s => rfl

end Value

theorem FrameKind.place_inj {k k' : FrameKind} (h : k.place = k'.place) : k = k' := by
  cases k <;> cases k' <;> first
    | rfl
    | cases h

namespace Frames

variable {fs fs' : Frames} {u v : VarRef} {x : Value} {p : VarRef × Value}
  {l : List (VarRef × Value)}

theorem find?_set (h : fs.set v x = .ok fs') :
    fs'.find? u = if u = v then some x else fs.find? u := by
  split
  · next hu => rw [hu, find?_of_set h]
  · next hu =>
    obtain ⟨f, hf, -, rfl⟩ := set_ok.1 h
    rw [find?, find?, ← at?_place, ← at?_place, at?_replace hf]
    split
    · next hk =>
      -- Two variables of one frame differ in their names.
      have hn : u.name ≠ v.name := fun hn ↦ hu (by
        cases u
        cases v
        cases FrameKind.place_inj hk
        cases hn
        rfl)
      rw [hk, at?_place, hf, Option.bind_some, Option.bind_some, Frame.get?_set]
      simp only [hn, ↓reduceIte, Option.map_id']
    · rfl

/-- One assignment after the other. -/
def store (fs : Frames) (l : List (VarRef × Value)) : Except Fault Frames :=
  l.foldlM (fun fs p ↦ fs.set p.1 p.2) fs

theorem store_cons_ok :
    fs.store (p :: l) = .ok fs' ↔ ∃ fs₁, fs.set p.1 p.2 = .ok fs₁ ∧ fs₁.store l = .ok fs' := by
  rw [store, List.foldlM_cons, Except.bind_eq_ok]
  rfl

theorem store_concat_ok :
    fs.store (l ++ [p]) = .ok fs' ↔ ∃ fs₁, fs.store l = .ok fs₁ ∧ fs₁.set p.1 p.2 = .ok fs' := by
  rw [store, List.foldlM_append, Except.bind_eq_ok]
  simp only [List.foldlM_cons, List.foldlM_nil, bind_pure]
  rfl

theorem isSome_find?_set (h : fs.set v x = .ok fs') :
    (fs'.find? u).isSome = (fs.find? u).isSome := by
  rw [find?_set h]
  split
  · next hu =>
    have hm : fs.missing? v = none := by
      cases hm : fs.missing? v with
      | none => rfl
      | some f => rw [set_error.2 hm] at h; cases h
    rw [hu, missing?_eq_none.1 hm, Option.isSome_some]
  · rfl

theorem isSome_find?_store (h : fs.store l = .ok fs') :
    (fs'.find? u).isSome = (fs.find? u).isSome := by
  induction l generalizing fs with
  | nil =>
    cases h
    rfl
  | cons p l ih =>
    obtain ⟨fs₁, hs, ht⟩ := store_cons_ok.1 h
    rw [ih ht, isSome_find?_set hs]

theorem find?_store_of_not_mem (h : fs.store l = .ok fs') (hu : u ∉ l.map Prod.fst) :
    fs'.find? u = fs.find? u := by
  induction l generalizing fs with
  | nil =>
    cases h
    rfl
  | cons p l ih =>
    obtain ⟨fs₁, hs, ht⟩ := store_cons_ok.1 h
    rw [List.map_cons, List.mem_cons, not_or] at hu
    rw [ih ht hu.2, find?_set hs, if_neg hu.1]

/-- Assignments to different variables all last. -/
theorem find?_store (h : fs.store l = .ok fs') (hd : (l.map Prod.fst).Nodup) (hp : p ∈ l) :
    fs'.find? p.1 = some p.2 := by
  induction l generalizing fs with
  | nil => cases hp
  | cons q l ih =>
    obtain ⟨fs₁, hs, ht⟩ := store_cons_ok.1 h
    rw [List.map_cons, List.nodup_cons] at hd
    rcases List.mem_cons.1 hp with rfl | hp
    · rw [find?_store_of_not_mem ht hd.1, find?_set hs, if_pos rfl]
    · exact ih ht hd.2 hp

end Frames

namespace Machine

variable {m : Machine} {v w : VarRef} {x : Value} {type : String} {l : List (VarRef × Value)}
  {code : List (Opcode × List Argument)} {rest : List UInt8}

/-- The machine `k` instructions further on. -/
def after (m : Machine) (k : Nat) (frames : Frames) (input : List UInt8) : Machine :=
  { m with frames, input, pc := m.pc + k, executed := m.executed + k }

def readInto (v : VarRef) (type : String) : Opcode × List Argument := (.read, [.var v, .type type])

theorem advance_readInto (h : m.Ahead (readInto v type :: code)) (hv : (m.frames.find? v).isSome)
    (hx : Value.ofLine type (takeLine m.input).1 = .ok x) :
    ∃ fs, m.frames.set v x = .ok fs ∧ m.advance = (m.after 1 fs (takeLine m.input).2, none) := by
  obtain ⟨i, hi, ho, ha⟩ := h.head
  obtain ⟨y, hy⟩ := Option.isSome_iff_exists.1 hv
  have hplace : i.place m.frames 0 = .ok v := by
    rw [Instruction.place_var (by rw [ha]; rfl), Frames.get_ok.2 hy, Except.ok_bind]
  have htype : i.readType 1 = .ok type := by
    rw [Instruction.readType, ha]
    rfl
  obtain ⟨fs, hfs, hc⟩ := Instruction.Completes.read_of_place ho hplace htype hx
  exact ⟨fs, hfs, advance_of_ok hi hc.step⟩

/-- Each value is taken from its own line. -/
theorem run_readInto (hx : ∀ p ∈ l, p.2.Readable) (hv : ∀ p ∈ l, (m.frames.find? p.1).isSome)
    (ha : m.Ahead (l.map (fun p ↦ readInto p.1 p.2.typeName) ++ code))
    (hi : m.input = Value.printed (l.map Prod.snd) ++ rest) :
    ∃ fs, m.frames.store l = .ok fs ∧ m.run l.length = (m.after l.length fs rest, none) := by
  induction l generalizing m with
  | nil =>
    obtain rfl : m.input = rest := hi
    exact ⟨m.frames, rfl, rfl⟩
  | cons p l ih =>
    rw [List.forall_mem_cons] at hx hv
    -- The first value takes its own line only, so that the others are read from what they printed.
    have htake : takeLine m.input =
        (some p.2.display, Value.printed (l.map Prod.snd) ++ rest) := by
      rw [← hx.1.takeLine, hi]
      simp [Value.printed]
    obtain ⟨fs₁, hfs₁, hadv⟩ := advance_readInto ha hv.1 (x := p.2) (by rw [htake, hx.1.ofLine])
    rw [htake] at hadv
    obtain ⟨fs, hfs, hrun⟩ := ih (m := m.after 1 fs₁ (Value.printed (l.map Prod.snd) ++ rest)) hx.2
      (fun q hq ↦ by
        rw [← hv.2 q hq]
        exact Frames.isSome_find?_set hfs₁)
      (ha.tail rfl rfl) rfl
    refine ⟨fs, Frames.store_cons_ok.2 ⟨fs₁, hfs₁, hfs⟩, ?_⟩
    rw [List.length_cons, run_of_next hadv, hrun]
    simp only [after, Nat.add_assoc, Nat.add_comm 1]

theorem Ahead.after {code' : List (Opcode × List Argument)} (h : m.Ahead (code ++ code'))
    (fs : Frames) (input : List UInt8) : (m.after code.length fs input).Ahead code' := by
  obtain ⟨l, hl⟩ := h
  have hd : (m.after code.length fs input).program.instructions.drop
      (m.after code.length fs input).pc = (m.program.instructions.drop m.pc).drop code.length :=
    List.drop_drop.symm
  rw [Ahead, hd, List.map_drop, ← hl, List.append_assoc, List.drop_left]
  exact List.prefix_append code' l

/-- What is printed of values, one to a line, is read back as these values, each asked for by its
type; they are all there in the end if they go to different variables. The `READ` behind them finds
no line and stores `nil`. -/
theorem printed_lines_read_back (hx : ∀ p ∈ l, p.2.Readable)
    (hv : ∀ p ∈ l, (m.frames.find? p.1).isSome) (hw : (m.frames.find? w).isSome)
    (htype : (ReadType.ofName? type).isSome)
    (ha : m.Ahead (l.map (fun p ↦ readInto p.1 p.2.typeName) ++ [readInto w type]))
    (hi : m.input = Value.printed (l.map Prod.snd)) :
    (∀ l₁ p l₂, l = l₁ ++ p :: l₂ → ∃ fs,
      m.run (l₁.length + 1) =
        (m.after (l₁.length + 1) fs (Value.printed (l₂.map Prod.snd)), none) ∧
      fs.get p.1 = .ok p.2) ∧
    ∃ fs, m.run (l.length + 1) = (m.after (l.length + 1) fs [], none) ∧ fs.get w = .ok .nil ∧
      m.frames.store (l ++ [(w, .nil)]) = .ok fs ∧
      ((l.map Prod.fst ++ [w]).Nodup → ∀ p ∈ l, fs.get p.1 = .ok p.2) := by
  constructor
  · intro l₁ p l₂ hl
    have hsub {q : VarRef × Value} (hq : q ∈ l₁ ++ [p]) : q ∈ l := by
      rw [hl, List.append_cons]
      exact List.mem_append_left l₂ hq
    have hcode : m.Ahead ((l₁ ++ [p]).map (fun p ↦ readInto p.1 p.2.typeName) ++
        (l₂.map (fun p ↦ readInto p.1 p.2.typeName) ++ [readInto w type])) := by
      rw [← List.append_assoc, ← List.map_append, ← List.append_cons, ← hl]
      exact ha
    have hin : m.input = Value.printed ((l₁ ++ [p]).map Prod.snd) ++
        Value.printed (l₂.map Prod.snd) := by
      rw [Value.printed, Value.printed, ← List.flatMap_append, ← List.map_append,
        ← List.append_cons, ← hl]
      exact hi
    obtain ⟨fs, hfs, hrun⟩ :=
      run_readInto (fun q hq ↦ hx q (hsub hq)) (fun q hq ↦ hv q (hsub hq)) hcode hin
    rw [List.length_append, List.length_singleton] at hrun
    obtain ⟨fs₁, -, hset⟩ := Frames.store_concat_ok.1 hfs
    exact ⟨fs, hrun, Frames.get_ok.2 (Frames.find?_of_set hset)⟩
  · rw [← List.append_nil (Value.printed _)] at hi
    obtain ⟨fs₁, hfs₁, hrun⟩ := run_readInto hx hv ha hi
    have hw₁ : (fs₁.find? w).isSome := by
      rw [Frames.isSome_find?_store hfs₁]
      exact hw
    have hnil : Value.ofLine type (takeLine (m.after l.length fs₁ []).input).1 = .ok .nil := by
      obtain ⟨t, ht⟩ := Option.isSome_iff_exists.1 htype
      rw [Value.ofLine, ht]
      rfl
    have ha₁ := ha.after fs₁ []
    rw [List.length_map] at ha₁
    obtain ⟨fs, hfs, hadv⟩ := advance_readInto ha₁ hw₁ hnil
    have hstore : m.frames.store (l ++ [(w, .nil)]) = .ok fs :=
      Frames.store_concat_ok.2 ⟨fs₁, hfs₁, hfs⟩
    refine ⟨fs, ?_, Frames.get_ok.2 (Frames.find?_of_set hfs), hstore, fun hd p hp ↦ ?_⟩
    · rw [run_succ_of_none hrun, run_one_of_none hadv]
      rfl
    · refine Frames.get_ok.2 (Frames.find?_store hstore ?_ (List.mem_append_left _ hp))
      rw [List.map_append]
      exact hd

def keepsakes : List (VarRef × Value) :=
  [(⟨.gf, "b"⟩, .bool false), (⟨.gf, "i"⟩, .int (-7)), (⟨.gf, "f"⟩, .float Binary64.smallest),
    (⟨.gf, "e"⟩, .string ""), (⟨.gf, "s"⟩, .string "\r ř")]

/-- The variables are defined and then read, with one more that nothing is left for. -/
def keepsakeCode : List (Opcode × List Argument) :=
  (keepsakes.map Prod.fst ++ [(⟨.gf, "w"⟩ : VarRef)]).map (fun v ↦ (.defVar, [.var v])) ++
    (keepsakes.map (fun p ↦ readInto p.1 p.2.typeName) ++ [readInto ⟨.gf, "w"⟩ "string"])

def keepsakeProgram : Program :=
  .ofList (keepsakeCode.zipIdx.map fun c ↦ ⟨c.2 + 1, c.1.1, c.1.2⟩)

def keepsakeMachine : Machine :=
  { fresh keepsakeProgram (Value.printed (keepsakes.map Prod.snd)) {} {} with
    frames := {
      globals := ⟨(keepsakes.map fun p ↦ (p.1.name, .undefined)) ++ [("w", .undefined)]⟩ }
    pc := 6
    executed := 6 }

theorem printed_lines_read_back_keepsakes :
    Session (fresh keepsakeProgram (Value.printed (keepsakes.map Prod.snd)) {} {}) .running
      keepsakeMachine ∧
    ∃ fs, keepsakeMachine.run 6 = (keepsakeMachine.after 6 fs [], none) ∧
      fs.get ⟨.gf, "w"⟩ = .ok .nil ∧ ∀ p ∈ keepsakes, fs.get p.1 = .ok p.2 := by
  have hs : (fresh keepsakeProgram (Value.printed (keepsakes.map Prod.snd)) {} {}).start =
      .ok (fresh keepsakeProgram (Value.printed (keepsakes.map Prod.snd)) {} {}) := by
    cbv
  have hr : (fresh keepsakeProgram (Value.printed (keepsakes.map Prod.snd)) {} {}).run 6 =
      (keepsakeMachine, none) := by
    cbv
  have ha : keepsakeMachine.Ahead (keepsakes.map (fun p ↦ readInto p.1 p.2.typeName) ++
      [readInto ⟨.gf, "w"⟩ "string"]) := ⟨[], by cbv⟩
  obtain ⟨-, fs, hrun, hw, -, hd⟩ :=
    printed_lines_read_back (by decide) (by decide) (by decide) (by decide) ha rfl
  exact ⟨(Session.start .fresh hs).run_none hr, fs, hrun, hw, hd (by decide)⟩

end Machine

end ThreeAddress
