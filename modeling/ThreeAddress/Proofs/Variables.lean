import Mathlib
import ThreeAddress.Proofs.Reframing
import ThreeAddress.Proofs.Session

namespace ThreeAddress

namespace Frame

variable {f : Frame} {name key : String} {x : Value} {o : Opcode}

/-- The variables of a frame, in the order of their definition. -/
def names (f : Frame) : List String := f.entries.map Prod.fst

theorem contains_iff : f.contains name = true ↔ name ∈ f.names := by
  simp only [contains, get?, List.lookup_isSome_iff, names, List.mem_map, beq_iff_eq]
  constructor
  · rintro ⟨p, hp, rfl⟩
    exact ⟨p, hp, rfl⟩
  · rintro ⟨p, hp, rfl⟩
    exact ⟨p, hp, rfl⟩

theorem names_define : (f.define name).names = f.names ++ [name] := by
  simp only [names, define, List.map_append, List.map_cons, List.map_nil]

theorem names_set : (f.set name x).names = f.names := by
  simp only [names, set, List.map_map]
  refine List.map_congr_left fun p _ ↦ ?_
  by_cases hp : p.1 = name
  · simp only [Function.comp_apply, hp, ↓reduceIte]
  · simp only [Function.comp_apply, hp, ↓reduceIte]

theorem get?_define {y : Value} (h : f.get? key = some y) :
    (f.define name).get? key = some y := by
  rw [get?] at h
  rw [get?, define, List.lookup_append, h, Option.some_or]

theorem get?_set :
    (f.set name x).get? key = (f.get? key).map fun y ↦ if key = name then x else y := by
  simp only [get?, set]
  induction f.entries with
  | nil => rfl
  | cons p l ih =>
    rw [List.map_cons, List.lookup_cons, List.lookup_cons, ih]
    by_cases hk : key = p.1
    · by_cases hp : p.1 = name
      · simp only [hk, hp, ↓reduceIte, BEq.rfl, Option.map_some]
      · simp only [hk, hp, ↓reduceIte, BEq.rfl, Option.map_some]
    · have hb : (key == p.1) = false := beq_eq_false_iff_ne.2 hk
      by_cases hp : p.1 = name
      · simp only [hp, ↓reduceIte, hp ▸ hb]
      · simp only [hp, ↓reduceIte, hb]

/-- How an instruction lets a frame grow: names stay where they are, a definition may add one that
has no value yet, and what has a value keeps having one. -/
structure Grows (o : Opcode) (f g : Frame) : Prop where
  kept : f.names <+: g.names
  appended : g.names ≠ f.names →
    o = .defVar ∧ ∃ name, g.entries = f.entries ++ [(name, .undefined)]
  assigned (name : String) (x : Value) : f.get? name = some x → x ≠ .undefined →
    ∃ y, g.get? name = some y ∧ y ≠ .undefined

theorem Grows.refl (f : Frame) : f.Grows o f where
  kept := List.prefix_rfl
  appended h := absurd rfl h
  assigned _ x hx hn := ⟨x, hx, hn⟩

theorem grows_set (hx : x ≠ .undefined) : f.Grows o (f.set name x) where
  kept := names_set ▸ List.prefix_rfl
  appended h := absurd names_set h
  assigned key y hy hn := by
    refine ⟨if key = name then x else y, by rw [get?_set, hy, Option.map_some], ?_⟩
    split
    · exact hx
    · exact hn

theorem grows_define : f.Grows .defVar (f.define name) where
  kept := by
    rw [names_define]
    exact List.prefix_append _ _
  appended _ := ⟨rfl, name, rfl⟩
  assigned _ y hy hn := ⟨y, get?_define hy, hn⟩

end Frame

namespace Frames

variable {fs fs' : Frames} {f g : Frame} {kind : FrameKind} {R : Frame → Frame → Prop}

def all (fs : Frames) : List Frame := fs.globals :: (fs.locals ++ fs.temporary.toList)

theorem mem_all : f ∈ fs.all ↔ f = fs.globals ∨ f ∈ fs.locals ∨ fs.temporary = some f := by
  rw [all, List.mem_cons, List.mem_append, Option.mem_toList]

theorem mem_all_of_frame? (h : fs.frame? kind = some f) : f ∈ fs.all := by
  rw [mem_all]
  cases kind with
  | gf => exact .inl (Option.some_inj.1 h).symm
  | lf => exact .inr (.inl (List.mem_of_mem_head? h))
  | tf => exact .inr (.inr h)

theorem of_mem_all_replace (h : g ∈ (fs.replace f kind).all) : g = f ∨ g ∈ fs.all := by
  rw [mem_all] at h
  rw [mem_all]
  cases kind with
  | gf => exact h.imp_right .inr
  | lf =>
    rcases h with h | h | h
    · exact .inr (.inl h)
    · exact (List.mem_cons.1 h).imp_right fun h ↦ .inr (.inl (List.mem_of_mem_tail h))
    · exact .inr (.inr (.inr h))
  | tf =>
    rcases h with h | h | h
    · exact .inr (.inl h)
    · exact .inr (.inr (.inl h))
    · exact .inl (Option.some_inj.1 h).symm

theorem of_mem_all_arrange {o : Opcode} (h : g ∈ (o.arrange fs).all) : g = {} ∨ g ∈ fs.all := by
  cases o with
  | createFrame =>
    rcases mem_all.1 h with h | h | h
    · exact .inr (mem_all.2 (.inl h))
    · exact .inr (mem_all.2 (.inr (.inl h)))
    · exact .inl (Option.some_inj.1 h).symm
  | pushFrame =>
    refine .inr (mem_all.2 ?_)
    rcases mem_all.1 h with h | h | h
    · exact .inl h
    · exact .inr ((List.mem_append.1 h).symm.imp_right Option.mem_toList.1)
    · cases h
  | popFrame =>
    refine .inr (mem_all.2 ?_)
    rcases mem_all.1 h with h | h | h
    · exact .inl h
    · exact .inr (.inl (List.mem_of_mem_tail h))
    · exact .inr (.inl (List.mem_of_mem_head? h))
  | _ => exact .inr h

/-- Every frame is related to the one that has taken its place. -/
structure Grows (R : Frame → Frame → Prop) (fs fs' : Frames) : Prop where
  globals : R fs.globals fs'.globals
  locals : List.Forall₂ R fs.locals fs'.locals
  temporary : Option.Rel R fs.temporary fs'.temporary

section

variable (hR : ∀ f, R f f)

include hR

theorem Grows.refl (fs : Frames) : fs.Grows R fs where
  globals := hR _
  locals := List.forall₂_same.2 fun f _ ↦ hR f
  temporary := by
    cases fs.temporary with
    | none => exact .none
    | some f => exact .some (hR f)

theorem grows_replace (hf : fs.frame? kind = some f) (hg : R f g) :
    fs.Grows R (fs.replace g kind) := by
  have hr := Grows.refl hR fs
  cases kind with
  | gf => exact { hr with globals := Option.some_inj.1 hf ▸ hg }
  | lf =>
    obtain ⟨l, hl⟩ := List.head?_eq_some_iff.1 hf
    refine { hr with locals := ?_ }
    simp only [replace, hl, List.tail_cons]
    exact .cons hg (List.forall₂_same.2 fun f _ ↦ hR f)
  | tf => exact { hr with temporary := by rw [show fs.temporary = some f from hf]; exact .some hg }

end

end Frames

namespace Instruction.Reframes

variable {i : Instruction} {fs fs' : Frames}

theorem grows (h : i.Reframes fs fs') :
    (i.opcode.arrange fs).Grows (Frame.Grows i.opcode) fs' := by
  cases h with
  | arranged => exact .refl .refl _
  | assigned h =>
    obtain ⟨v, x, hx, h⟩ := h
    obtain ⟨f, hf, -, rfl⟩ := Frames.set_ok.1 h
    exact Frames.grows_replace .refl hf (Frame.grows_set hx)
  | defined ho h =>
    obtain ⟨f, hf, -, rfl⟩ := Frames.define_ok.1 h
    rw [ho]
    exact Frames.grows_replace .refl hf Frame.grows_define

theorem names_nodup (h : i.Reframes fs fs') (hd : ∀ f ∈ fs.all, f.names.Nodup) :
    ∀ f ∈ fs'.all, f.names.Nodup := by
  have ha : ∀ f ∈ (i.opcode.arrange fs).all, f.names.Nodup := by
    intro f hf
    rcases Frames.of_mem_all_arrange hf with rfl | hf
    · exact List.nodup_nil
    · exact hd f hf
  cases h with
  | arranged => exact ha
  | assigned h =>
    obtain ⟨v, x, -, h⟩ := h
    obtain ⟨f, hf, -, rfl⟩ := Frames.set_ok.1 h
    intro g hg
    rcases Frames.of_mem_all_replace hg with rfl | hg
    · rw [Frame.names_set]
      exact ha f (Frames.mem_all_of_frame? hf)
    · exact ha g hg
  | @defined v _ ho h =>
    obtain ⟨f, hf, hv, rfl⟩ := Frames.define_ok.1 h
    intro g hg
    rcases Frames.of_mem_all_replace hg with rfl | hg
    -- A second definition of a name is a fault, so the name is new to its frame.
    · have hn : v.name ∉ f.names := fun hn ↦ by
        rw [Frame.contains_iff.2 hn] at hv
        cases hv
      rw [Frame.names_define, ← List.concat_eq_append]
      exact (hd f (Frames.mem_all_of_frame? hf)).concat hn
    · exact hd g hg

end Instruction.Reframes

namespace Machine

/-- The variables of a frame have distinct names, and what is on the operand stack is defined. -/
structure Tidy (m : Machine) : Prop where
  names : ∀ f ∈ m.frames.all, f.names.Nodup
  operands : .undefined ∉ m.operands

variable {m₀ m m' : Machine} {i : Instruction} {flow : Flow} {f : Fault} {phase : Phase}

theorem Tidy.of_completes (hm : m.Tidy) (h : i.Completes m flow m') : m'.Tidy where
  names := (h.reframes hm.operands).names_nodup hm.names
  operands := h.operands_defined hm.operands

theorem Tidy.of_fails (hm : m.Tidy) (h : i.Fails m f m') : m'.Tidy := by
  cases h with
  | unresolved | read | write | dprint => exact ⟨hm.names, hm.operands⟩
  | taken => exact ⟨hm.names, fun hu ↦ hm.operands (List.mem_of_mem_drop hu)⟩

theorem Tidy.of_follow (hm : m.Tidy) (flow : Flow) : (m.follow flow).1.Tidy := by
  cases flow <;> exact ⟨hm.names, hm.operands⟩

theorem Tidy.advance (hm : m.Tidy) : m.advance.1.Tidy := by
  cases hi : m.instruction? with
  | none => simpa only [Machine.advance, hi] using hm
  | some i =>
    cases hs : i.step m with
    | ok flow m₁ =>
      rw [advance_of_ok hi hs]
      exact (hm.of_completes (.of_step hs)).of_follow flow
    | error f m₁ =>
      rw [advance_of_error hi hs]
      exact hm.of_fails (.of_step hs)

theorem Session.tidy (h₀ : m₀.Tidy) (h : Session m₀ phase m) : m.Tidy := by
  induction h with
  | fresh => exact h₀
  | start _ hs ih =>
    obtain ⟨t, -, rfl⟩ := start_ok hs
    exact ⟨ih.names, ih.operands⟩
  | next _ ha ih | stop _ ha ih =>
    have hm := ih.advance
    rwa [ha] at hm

theorem tidy_fresh (p : Program) (input : List UInt8) (output diagnostics : Sink) :
    (fresh p input output diagnostics).Tidy where
  names f hf := by
    rcases Frames.mem_all.1 hf with rfl | hf | hf
    · exact List.nodup_nil
    · cases hf
    · cases hf
  operands := List.not_mem_nil

/-- In every run of any program the variables of a frame have distinct names and only defined values
are on the operand stack. A completed instruction lets each frame grow, wherever it moves it to. -/
theorem variables_kept (p : Program) (input : List UInt8) (output diagnostics : Sink) :
    (∀ phase m, Session (fresh p input output diagnostics) phase m → m.Tidy) ∧
      ∀ m i flow m', Session (fresh p input output diagnostics) .running m →
        m.instruction? = some i → i.step m = .ok flow m' →
        (i.opcode.arrange m.frames).Grows (Frame.Grows i.opcode) m'.frames := by
  have tidy (phase : Phase) (m : Machine) (hm : Session (fresh p input output diagnostics) phase m) :
      m.Tidy := hm.tidy (tidy_fresh p input output diagnostics)
  refine ⟨tidy, fun m i flow m' hm _ hs ↦ ?_⟩
  have hc : i.Completes m flow m' := Instruction.step_ok.1 hs
  exact (hc.reframes (tidy _ m hm).operands).grows

def localProgram : Program :=
  .ofList [⟨1, .createFrame, []⟩, ⟨2, .defVar, [.var ⟨.tf, "x"⟩]⟩, ⟨3, .pushFrame, []⟩]

/-- A frame with a variable in it is moved. -/
theorem variables_kept_moved :
    ∃ m i flow m', Session (fresh localProgram [] {} {}) .running m ∧ m.Tidy ∧
      m.instruction? = some i ∧ i.step m = .ok flow m' ∧
      m.frames.temporary = some ⟨[("x", .undefined)]⟩ ∧
      m'.frames.locals = [⟨[("x", .undefined)]⟩] ∧
      (i.opcode.arrange m.frames).Grows (Frame.Grows i.opcode) m'.frames := by
  have hm : Session (fresh localProgram [] {} {}) .running
      { fresh localProgram [] {} {} with
        frames := { temporary := some ⟨[("x", .undefined)]⟩ }
        pc := 2
        executed := 2 } :=
    .next (.next (.start .fresh (by cbv)) (by cbv)) (by cbv)
  have hi : localProgram.instructions[2]? = some ⟨3, .pushFrame, []⟩ := by cbv
  have hk := variables_kept localProgram [] {} {}
  exact ⟨_, ⟨3, .pushFrame, []⟩, .next, _, hm, hk.1 _ _ hm, hi, rfl, rfl, rfl,
    hk.2 _ _ _ _ hm hi rfl⟩

end Machine

end ThreeAddress
