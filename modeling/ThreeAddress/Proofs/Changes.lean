import ThreeAddress.Proofs.Variables

namespace ThreeAddress

/-- What is done to one variable of a frame. -/
inductive Change
  | define (name : String)
  | assign (name : String) (x : Value)
  deriving DecidableEq

namespace Frame

def change (f : Frame) : Change → Frame
  | .define name => f.define name
  | .assign name x => f.set name x

theorem names_change (f : Frame) (c : Change) : f.names <+: (f.change c).names := by
  cases c with
  | define name =>
    rw [change, names_define]
    exact List.prefix_append _ _
  | assign name x =>
    rw [change, names_set]

theorem names_changes (f : Frame) (cs : List Change) :
    f.names <+: (cs.foldl change f).names := by
  induction cs generalizing f with
  | nil => exact List.prefix_rfl
  | cons c cs ih => exact (names_change f c).trans (ih (f.change c))

end Frame

namespace Frames

variable {fs fs' : Frames} {v : VarRef} {x : Value}

theorem frame?_replace (f : Frame) (kind : FrameKind) :
    (fs.replace f kind).frame? kind = some f := by
  cases kind <;> rfl

theorem find?_of_set (h : fs.set v x = .ok fs') : fs'.find? v = some x := by
  obtain ⟨f, -, hc, rfl⟩ := set_ok.1 h
  obtain ⟨y, hy⟩ := Option.isSome_iff_exists.1 hc
  rw [find?, frame?_replace, Option.bind_some, Frame.get?_set, hy, Option.map_some, if_pos rfl]

end Frames

namespace Instruction

/-- The variable that an instruction writes to; it is in the first slot of those that have one. -/
def written? (i : Instruction) : Option VarRef :=
  match i.opcode.signature.head?, i.arguments[0]? with
  | some .var, some (Argument.var v) => some v
  | _, _ => none

/-- The change that an instruction has made to a frame when it leaves `fs` behind. -/
def change? (i : Instruction) (fs : Frames) : Option (FrameKind × Change) :=
  i.written?.bind fun v ↦
    if i.opcode = .defVar then some (v.frame, .define v.name)
    else (fs.find? v).map fun x ↦ (v.frame, .assign v.name x)

/-- An instruction moves the frames about or changes one of them, and no other. -/
inductive Alters (i : Instruction) (fs fs' : Frames) : Prop
  | arranged : i.change? fs' = none → fs' = i.opcode.arrange fs → Alters i fs fs'
  | changed {kind : FrameKind} {f : Frame} {c : Change} : i.change? fs' = some (kind, c) →
      fs.frame? kind = some f → fs' = fs.replace (f.change c) kind → Alters i fs fs'

variable {i : Instruction} {fs fs' : Frames} {m m' : Machine} {flow : Flow} {v : VarRef}
  {x : Value}

theorem written?_of_varAt (hs : i.opcode.signature.head? = some .var) (hv : i.varAt 0 = .ok v) :
    i.written? = some v := by
  simp only [varAt] at hv
  split at hv
  · next w hw =>
    cases hv
    simp only [written?, hs, hw]
  · cases hv

theorem change?_eq_none (hs : i.opcode.signature.head? ≠ some .var) : i.change? fs = none := by
  have hw : i.written? = none := by
    simp only [written?]
    split
    · next h _ => exact absurd h hs
    · rfl
  rw [change?, hw, Option.bind_none]

namespace Alters

theorem of_arrange (hs : i.opcode.signature.head? ≠ some .var) (h : i.opcode.arrange fs = fs') :
    i.Alters fs fs' := .arranged (change?_eq_none hs) h.symm

theorem of_set (hs : i.opcode.signature.head? = some .var) (ho : i.opcode ≠ .defVar)
    (hv : i.varAt 0 = .ok v) (h : fs.set v x = .ok fs') : i.Alters fs fs' := by
  obtain ⟨f, hf, -, he⟩ := Frames.set_ok.1 h
  have hc : i.change? fs' = some (v.frame, .assign v.name x) := by
    rw [change?, written?_of_varAt hs hv, Option.bind_some, if_neg ho, Frames.find?_of_set h,
      Option.map_some]
  exact .changed hc hf he.symm

theorem of_place (hs : i.opcode.signature.head? = some .var) (ho : i.opcode ≠ .defVar)
    (hv : i.place fs 0 = .ok v) (h : fs.set v x = .ok fs') : i.Alters fs fs' :=
  of_set hs ho (varAt_of_place hv).1 h

theorem of_unary {op : Value → Except Fault Value}
    (hs : i.opcode.signature.head? = some .var) (ho : i.opcode ≠ .defVar)
    (h : i.unaryFrames fs op = .ok fs') : i.Alters fs fs' := by
  simp only [unaryFrames, Except.bind_eq_ok] at h
  obtain ⟨v, hv, _, -, a, -, x, -, h⟩ := h
  exact of_place hs ho hv h

theorem of_binary {op : Value → Value → Except Fault Value}
    (hs : i.opcode.signature.head? = some .var) (ho : i.opcode ≠ .defVar)
    (h : i.binaryFrames fs op = .ok fs') : i.Alters fs fs' := by
  simp only [binaryFrames, Except.bind_eq_ok] at h
  obtain ⟨v, hv, _, -, _, -, a, -, b, -, x, -, h⟩ := h
  exact of_place hs ho hv h

theorem of_setChar (hs : i.opcode.signature.head? = some .var) (ho : i.opcode ≠ .defVar)
    (h : i.setCharFrames fs = .ok fs') : i.Alters fs fs' := by
  simp only [setCharFrames, Except.bind_eq_ok] at h
  obtain ⟨v, hv, _, -, _, -, _, -, s, -, n, -, r, -, x, -, h⟩ := h
  exact of_place hs ho hv h

theorem of_type (hs : i.opcode.signature.head? = some .var) (ho : i.opcode ≠ .defVar)
    (h : i.typeFrames fs = .ok fs') : i.Alters fs fs' := by
  simp only [typeFrames, Except.bind_eq_ok] at h
  obtain ⟨v, hv, x, -, h⟩ := h
  exact of_place hs ho hv h

theorem of_define (ho : i.opcode = .defVar) (h : i.defineFrames fs = .ok fs') :
    i.Alters fs fs' := by
  obtain ⟨v, hv, h⟩ := Except.bind_eq_ok.1 h
  obtain ⟨f, hf, -, he⟩ := Frames.define_ok.1 h
  have hw : i.written? = some v := written?_of_varAt (by rw [ho]; rfl) hv
  have hc : i.change? fs' = some (v.frame, .define v.name) := by
    rw [change?, hw, Option.bind_some, if_pos ho]
  exact .changed hc hf he.symm

theorem of_reframe? {F : Frames → Except Fault Frames} (hF : i.reframe? = some F)
    (h : F fs = .ok fs') : i.Alters fs fs' := by
  cases ho : i.opcode <;> simp only [reframe?, ho, reduceCtorEq, Option.some.injEq] at hF <;>
    subst hF
  case createFrame =>
    exact of_arrange (by simp [ho, Opcode.signature]) (by rw [ho]; exact Except.ok.inj h)
  case pushFrame =>
    exact of_arrange (by simp [ho, Opcode.signature]) (by rw [ho, Opcode.arrange_pushFrame h])
  case popFrame =>
    exact of_arrange (by simp [ho, Opcode.signature]) (by rw [ho, Opcode.arrange_popFrame h])
  case defVar => exact of_define ho h
  case setChar => exact of_setChar (by rw [ho]; rfl) (by simp [ho]) h
  case type => exact of_type (by rw [ho]; rfl) (by simp [ho]) h
  case move | unary | strlen => exact of_unary (by rw [ho]; rfl) (by simp [ho]) h
  case binary | concat | getChar => exact of_binary (by rw [ho]; rfl) (by simp [ho]) h

end Alters

theorem Completes.alters (h : i.Completes m flow m') : i.Alters m.frames m'.frames := by
  cases h with
  | reframe hF hfs => exact .of_reframe? hF hfs
  | pops ho hv _ hfs => exact .of_place (by rw [ho]; rfl) (by simp [ho]) hv hfs
  | read ho hv _ _ hfs => exact .of_place (by rw [ho]; rfl) (by simp [ho]) hv hfs
  | call ho | ret ho | pushs ho | clears ho | write ho | label ho | jump ho | jumpIf ho | exit ho
  | dprint ho | breakpoint ho | binaryStack ho | unaryStack ho | jumpIfStack ho =>
    exact .of_arrange (by simp [ho, Opcode.signature]) (by rw [ho]; rfl)

end Instruction

end ThreeAddress
